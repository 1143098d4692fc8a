/-
From the push to the handler.  A committed push stored its whole batch; each of
its tasks stays stored as it was enqueued until a purge deletes it finished, and
a claim hands out exactly what some push enqueued.
-/
import ApalisPostgres.TaskHistories
import ApalisPostgres.LockPath

namespace ApalisPostgres

open RowStore

variable {rows : TaskConversion}

/-- The rows that land are rows of the batch, in its order. -/
theorem insertedRows_sublist {queue : String} {jobs : JobTable}
    {batch : List NewJob} {inserted : List JobRow}
    (h : insertedRows queue jobs batch = .ok inserted) :
    inserted.Sublist (batch.map fun task => task.row queue) := by
  induction batch generalizing jobs inserted with
  | nil =>
      simp only [insertedRows, Except.ok.injEq] at h
      subst h
      exact List.Sublist.slnil
  | cons task rest ih =>
      unfold insertedRows at h
      split at h
      · cases h
      split at h
      · exact (ih h).cons _
      · split at h
        · cases h
        · cases hrest : insertedRows queue (jobs.put (task.row queue)) rest with
          | error fault => simp [hrest, bind, Except.bind] at h
          | ok tail =>
              simp only [hrest, bind, Except.bind, pure, Except.pure,
                Except.ok.injEq] at h
              subst h
              exact (ih hrest).cons_cons _

/-- A batch without keys lands whole. -/
theorem insertedRows_keyless {queue : String} {jobs : JobTable}
    {batch : List NewJob} {inserted : List JobRow}
    (hkeyless : ∀ task ∈ batch, task.idempotencyKey = none)
    (h : insertedRows queue jobs batch = .ok inserted) :
    inserted.length = batch.length := by
  induction batch generalizing jobs inserted with
  | nil =>
      simp only [insertedRows, Except.ok.injEq] at h
      subst h
      rfl
  | cons task rest ih =>
      have hrestless : ∀ other ∈ rest, other.idempotencyKey = none :=
        fun other hother => hkeyless other (List.mem_cons_of_mem _ hother)
      unfold insertedRows at h
      rw [hkeyless task List.mem_cons_self] at h
      split at h
      · cases h
      simp only [Option.isSome_none, Bool.false_and, Bool.false_eq_true,
        if_false] at h
      split at h
      · cases h
      · cases hrest : insertedRows queue (jobs.put (task.row queue)) rest with
        | error fault => simp [hrest, bind, Except.bind] at h
        | ok tail =>
            simp only [hrest, bind, Except.bind, pure, Except.pure,
              Except.ok.injEq] at h
            subst h
            simp [ih hrestless hrest]

/-- The enqueue of one task of a batch. -/
def enqueueChange (queue : String) (task : NewJob) : JobChange :=
  ⟨task.id, .enqueue, none, some (task.row queue)⟩

/-- A batch that lost no row landed as it was submitted. -/
theorem insertJobs_changes {env : Env} {view : Db} {queue : String}
    {batch : List NewJob} {inserted : List (Option String)}
    {changes : List Effect}
    (h : (Stmt.insertJobs queue batch).exec env view = .ok (inserted, changes))
    (hall : (∀ task ∈ batch, task.idempotencyKey = none) ∨
      batch.length ≤ inserted.length) :
    jobChanges changes = batch.map (enqueueChange queue) := by
  have hplan := (exec_ok h).1
  simp only [Stmt.plan, bind, Except.bind] at hplan
  cases hrows : insertedRows queue view.jobs batch with
  | error fault => simp [hrows] at hplan
  | ok landed =>
      simp only [hrows, pure, Except.pure, Except.ok.injEq,
        Prod.mk.injEq] at hplan
      obtain ⟨rfl, rfl⟩ := hplan
      have hlength : batch.length ≤ landed.length := by
        rcases hall with hkeyless | hlength
        · exact (insertedRows_keyless hkeyless hrows).ge
        · simpa using hlength
      have hwhole : landed = batch.map fun task => task.row queue :=
        (insertedRows_sublist hrows).eq_of_length_le (by simpa using hlength)
      subst hwhole
      simp [jobChanges, Effect.jobChange?, enqueueChange, NewJob.row,
        Function.comp_def]

/-- A push that reaches its commit has enqueued every task of its batch. -/
theorem push_enqueues (queue : String) (batch : List NewJob) :
    (program rows (.pushTasksOnConn queue batch)).IssuesAfter
      (fun (_ : List (Ran sql)) _ => True)
      (fun trace _ => ∀ task ∈ batch, ∃ item ∈ trace,
        enqueueChange queue task ∈ jobChanges item.changes) [] := by
  apply Program.issuesAfter_bind
  unfold pushTasksOnConn
  split
  · rename_i hempty
    rw [List.isEmpty_iff.mp hempty]
    intro task htask
    cases htask
  · apply issuesAfter_query trivial
    intro env base inserted changes hexec
    split
    · trivial
    · rename_i hwhole
      intro task htask
      refine ⟨_, List.mem_append_right _ List.mem_cons_self, ?_⟩
      have hchanges : jobChanges changes = batch.map (enqueueChange queue) := by
        apply insertJobs_changes hexec
        by_cases hkeyed : batch.any fun task => task.idempotencyKey.isSome
        · right
          simpa [hkeyed] using hwhole
        · left
          intro other hother
          simp only [List.any_eq_true, not_exists, not_and,
            Bool.not_eq_true] at hkeyed
          simpa using hkeyed other hother
      rw [hchanges]
      exact List.mem_map_of_mem htask

/-- A purge of the history deleted the task, finished and old enough. -/
def PurgedIn (trace : List (Ran sql)) (task : JobRow) : Prop :=
  ∃ item ∈ trace, ∃ queue cutoff limit row,
    item.stmt = .purgeTerminal queue cutoff limit ∧
    (⟨task.id, .purge, some row, none⟩ : JobChange) ∈ jobChanges item.changes ∧
    terminal row = true ∧ completedBefore cutoff row = true ∧
    row.SameTask task

/-- A stored task stays as it was enqueued until a purge deletes it. -/
theorem kept_or_purged {db : Db} {trace : List (Ran sql)}
    (hserial : jobCells.Serial db trace) {task : JobRow}
    (hstored : ∃ row, db.jobs.get? task.id = some row ∧ row.SameTask task) :
    (∃ row, (db.apply (written trace)).jobs.get? task.id = some row ∧
      row.SameTask task) ∨ PurgedIn trace task := by
  refine hserial.rule (fun _ value =>
    (∃ row, value = some row ∧ row.SameTask task) ∨ PurgedIn trace task)
    (Or.inl hstored) (fun _ _ _ _ _ h => h) ?_
  intro before item hitem hwrites hbefore
  rcases hbefore with ⟨old, hold, hsame⟩ | hpurged
  · obtain ⟨change, hchange, hkey⟩ := List.mem_map.mp hwrites
    have hstep := (exec_executed item.executed).jobStep hchange
    have hfound : change.before = some old := by
      rw [hstep.reads.before_eq, hkey]
      exact hold
    have hleft : jobCells.read task.id (sql.apply item.view item.changes) =
        change.after := by
      rw [← hkey]
      exact written_job item hchange item.view
    rw [hleft]
    cases hafter : change.after with
    | some new =>
        exact Or.inl ⟨new, rfl, (hstep.sameTask hfound hafter).trans hsame⟩
    | none =>
        obtain ⟨queue, cutoff, limit, row, hstmt, rfl, hterminal, hcut⟩ :=
          hstep.purged hafter
        obtain rfl := Option.some.inj hfound
        refine Or.inr ⟨item, hitem, queue, cutoff, limit, row, hstmt, ?_,
          hterminal, hcut, hsame⟩
        rw [← hsame.id]
        exact hchange
  · exact Or.inr hpurged

/-- The session that deleted a purged task. -/
structure PurgesTask (task : JobRow) (session : PgSession)
    (cutoff : Timestamp) (row : JobRow) : Prop where
  committed : session.stage.isCommitted = true
  op : ∃ queue limit, session.op = .purgeTerminalBatch queue cutoff limit
  deleted : (⟨task.id, .purge, some row, none⟩ : JobChange) ∈
    jobChanges session.pending
  finished : terminal row = true
  old : completedBefore cutoff row = true
  same : row.SameTask task

/-- No accepted task is ever lost.  In every interleaving, each task of a push
that committed is still stored with the columns it was enqueued with, or a
committed purge deleted it once it was finished and older than its cutoff. -/
theorem accepted_tasks_kept {server : PgServer}
    (h : (pgServer rows).Reachable server) {index : Nat} {session : PgSession}
    {value : Outcome} {queue : String} {batch : List NewJob} {task : NewJob}
    (hsession : server.sessions[index]? = some session)
    (hop : session.op = .pushTasksOnConn queue batch)
    (hcommitted : session.stage = .committed value) (htask : task ∈ batch) :
    (∃ row, server.db.jobs.get? task.id = some row ∧
      row.SameTask (task.row queue)) ∨
    ∃ (other : Nat) (purge : PgSession) (cutoff : Timestamp) (row : JobRow),
      server.sessions[other]? = some purge ∧
      PurgesTask (task.row queue) purge cutoff row := by
  obtain ⟨order, horder, hcells⟩ := Server.reachable_commitOrder h
  have hserial := hcells jobCells
  have hpost := @push_enqueues rows queue batch
  rw [← hop] at hpost
  obtain ⟨item, hitem, hchange⟩ :=
    Server.reachable_post h hsession hpost hcommitted task htask
  have hindex : index ∈ order := (horder.committed index).mpr
    ⟨session, hsession, by rw [hcommitted]; rfl⟩
  have hran : item ∈ server.statements order := List.mem_flatMap.mpr
    ⟨index, hindex, by rw [hsession]; exact hitem⟩
  obtain ⟨before, after, hsplit⟩ := List.append_of_mem hran
  have hlater : jobCells.Serial
      (Db.empty.apply (written (before ++ [item]))) after := by
    apply Cells.Serial.right
    rw [hsplit, List.append_cons] at hserial
    exact hserial
  have hstored : ∃ row, (Db.empty.apply
      (written (before ++ [item]))).jobs.get? (task.row queue).id = some row ∧
        row.SameTask (task.row queue) := by
    refine ⟨task.row queue, ?_, .refl _⟩
    exact (congrArg (fun view : Db => view.jobs.get? task.id)
      (Cells.apply_concat Db.empty before item)).trans
        (written_job item hchange _)
  rcases kept_or_purged hlater hstored with hkept | hpurged
  · left
    rw [horder.db_eq, hsplit, List.append_cons, Cells.apply_written_append]
    exact hkept
  · right
    obtain ⟨last, hlast, name, cutoff, limit, row, hstmt, hdeleted, hfinished,
      hold, hsame⟩ := hpurged
    obtain ⟨other, hother, purge, hpurge, hissued⟩ :=
      Server.mem_statements (show last ∈ server.statements order by
        rw [hsplit]
        simp [hlast])
    obtain ⟨found, hfound, hdone⟩ := (horder.committed other).mp hother
    rw [hpurge] at hfound
    obtain rfl := Option.some.inj hfound
    refine ⟨other, purge, cutoff, row, hpurge, hdone, ?_, ?_, hfinished, hold,
      hsame⟩
    · obtain ⟨earlier, rest, htrace⟩ := List.append_of_mem hissued
      have htrusted := ((Server.reachable_disciplined h hpurge
        (program_trusted purge.op)).issued earlier last
        ⟨rest, by simp [htrace]⟩).1
      rw [hstmt] at htrusted
      exact ⟨name, limit, htrusted⟩
    · rw [mem_jobChanges] at hdeleted ⊢
      exact List.mem_flatMap.mpr ⟨last, hissued, hdeleted⟩

def Op.purges : Op → Bool
  | .purgeTerminalBatch .. => true
  | _ => false

theorem accepted_tasks_kept_overtaken :
    ∃ (session : PgSession) (batch : List NewJob) (task : NewJob),
      overtaken.sessions[1]? = some session ∧
      session.op = .pushTasksOnConn "queue" batch ∧ task ∈ batch ∧
      task.id = sampleId ∧ ∃ row, overtaken.db.jobs.get? sampleId = some row ∧
        row.SameTask (task.row "queue") := by
  have hnone : (overtaken.sessions.all fun session => !session.op.purges) =
      true := by decide +kernel
  have hpush : (overtaken.sessions[1]?.map fun session =>
      (session.op.enqueuesInto "queue" sampleId,
        session.stage.isCommitted)) = some (true, true) := by decide +kernel
  obtain ⟨session, hsession, hfacts⟩ := Option.map_eq_some_iff.mp hpush
  obtain ⟨henqueues, hdone⟩ := Prod.mk.inj hfacts
  cases hstage : session.stage with
  | committed value =>
      cases hop : session.op with
      | pushTasksOnConn queue batch =>
          simp only [hop, Op.enqueuesInto, Bool.and_eq_true, decide_eq_true_eq,
            List.any_eq_true] at henqueues
          obtain ⟨rfl, task, htask, hid⟩ := henqueues
          refine ⟨session, batch, task, hsession, hop, htask, hid, ?_⟩
          rcases accepted_tasks_kept overtaken_reachable hsession hop hstage
            htask with hkept | ⟨other, purge, cutoff, row, hpurge, hpurges⟩
          · rw [hid] at hkept
            exact hkept
          · obtain ⟨name, limit, hpurging⟩ := hpurges.op
            have hnot := List.all_eq_true.mp hnone purge
              (List.mem_of_getElem? hpurge)
            rw [hpurging] at hnot
            cases hnot
      | _ => simp [hop, Op.enqueuesInto] at henqueues
  | _ => simp [hstage, Stage.isCommitted] at hdone

/-- Each returned task is a row that a statement of the transaction left. -/
def Delivers (trace : List (Ran sql)) : Outcome → Prop
  | .tasks tasks => ∀ task ∈ tasks, ∃ item ∈ trace,
      ∃ change ∈ jobChanges item.changes, ∃ row,
        change.after = some row ∧ task.Claimed row
  | _ => True

theorem claimedTasks_returns {item : Ran sql} {claimed : List JobRow}
    {trace : List (Ran sql)} (hitem : item ∈ trace) :
    (claimedTasks rows claimed).IssuesAfter (fun _ _ => True)
      (fun after tasks => item ∈ after ∧
        ∀ task ∈ tasks, ∃ row ∈ claimed, task.Claimed row) trace := by
  induction claimed generalizing trace with
  | nil => exact ⟨hitem, fun task htask => by cases htask⟩
  | cons row rest ih =>
      have hlater : ∀ {task : Task}, (∃ other ∈ rest, task.Claimed other) →
          ∃ other ∈ row :: rest, task.Claimed other := by
        rintro task ⟨other, hother, hfrom⟩
        exact ⟨other, List.mem_cons_of_mem _ hother, hfrom⟩
      unfold claimedTasks
      cases hconvert : rows.tryIntoTaskCompact row with
      | error message =>
          apply issuesAfter_query trivial
          intro env base count changes hexec
          apply (ih (List.mem_append_left _ hitem)).mono
          rintro after tasks ⟨hkept, htasks⟩
          exact ⟨hkept, fun task htask => hlater (htasks task htask)⟩
      | ok converted =>
          have hhead : ({ converted with
              parts := recordClaim converted.parts } : Task).Claimed row := by
            apply @claimedTaskRow_ok rows
            simp [claimedTaskRow, taskRow, hconvert]
          apply Program.issuesAfter_bind
          apply (ih hitem).mono
          rintro after tasks ⟨hkept, htasks⟩
          refine ⟨hkept, ?_⟩
          intro task htask
          rcases List.mem_cons.mp htask with rfl | htask
          · exact ⟨row, List.mem_cons_self, hhead⟩
          · exact hlater (htasks task htask)

/-- The tasks of a claim are the rows its UPDATE left. -/
theorem claim_delivers {item : Ran sql} {edge : JobEdge} {worker : String}
    {selected : List JobRow}
    (hchanges : item.changes =
      updateJobs edge (claimRow worker item.env.now) selected)
    (trace : List (Ran sql)) :
    (claimedTasks rows (claimedRows worker item.env.now selected)).IssuesAfter
      (fun _ _ => True) (fun after tasks => Delivers after (.tasks tasks))
      (trace ++ [item]) := by
  apply (claimedTasks_returns (List.mem_append_right _ List.mem_cons_self)).mono
  rintro after tasks ⟨hitem, htasks⟩ task htask
  obtain ⟨row, hrow, hclaimed⟩ := htasks task htask
  obtain ⟨old, hold, rfl⟩ :=
    List.mem_map.mp ((List.mem_insertionSort _).mp hrow)
  refine ⟨item, hitem, ⟨old.id, edge, some old, some _⟩, ?_, _, rfl, hclaimed⟩
  rw [hchanges, jobChanges_updateJobs]
  exact mem_updateChanges.mpr ⟨old, hold, rfl⟩

theorem lockTask_delivers (taskId worker : String)
    (queue token : Option String) :
    (lockTaskWithToken rows taskId worker queue token).IssuesAfter
      (fun _ _ => True) (fun after task => Delivers after (.tasks [task]))
      [] := by
  refine ⟨trivial, ?_⟩
  intro lookup hstmt hview
  have hlocated : ∀ located : Option String,
      Guarding (requireLocatedWorker worker token located) := by
    intro located
    cases located with
    | none => trivial
    | some found => exact requireWorker_guarded worker found token
  apply (hlocated _).issuesAfter_bind (fun _ _ _ => trivial)
  intro trace _
  apply issuesAfter_query trivial
  intro env base locked changes hexec
  have hplan := (exec_ok hexec).1
  simp only [Stmt.plan, Except.ok.injEq, Prod.mk.injEq] at hplan
  cases locked with
  | nil => trivial
  | cons row rest =>
      simp only [lockedTask]
      cases htask : claimedTaskRow rows row with
      | error error => trivial
      | ok task =>
          intro returned hreturned
          rw [List.mem_singleton] at hreturned
          subst hreturned
          have hrow : row ∈ row :: rest := List.mem_cons_self
          rw [← hplan.1] at hrow
          obtain ⟨old, hold, rfl⟩ := List.mem_map.mp hrow
          refine ⟨_, List.mem_append_right _ List.mem_cons_self,
            ⟨old.id, .lock, some old, some _⟩, ?_, _, rfl,
            claimedTaskRow_ok htask⟩
          change _ ∈ jobChanges changes
          rw [← hplan.2, jobChanges_updateJobs]
          exact mem_updateChanges.mpr ⟨old, hold, rfl⟩

/-- Every operation returns only what its statements left. -/
theorem program_delivers (op : Op) :
    (program rows op).IssuesAfter (fun _ _ => True) Delivers [] := by
  have hother : ∀ {α : Type} {first : Tx α} {f : α → Outcome},
      (∀ trace value, Delivers trace (f value)) →
      (first >>= fun value => pure (f value)).IssuesAfter (fun _ _ => True)
        Delivers [] := by
    intro α first f hf
    have hany : first.Only fun _ => True := by
      induction first with
      | commit value => trivial
      | rollback error => trivial
      | statement label stmt next ih => exact ⟨trivial, fun result => ih result⟩
    exact hany.issuesAfter_bind (fun _ _ _ => trivial) hf []
  cases op with
  | fetchNext worker queue bufferSize token =>
      apply Program.issuesAfter_bind
      apply (requireWorker_guarded worker queue token).issuesAfter_bind
        (fun _ _ _ => trivial)
      intro trace _
      apply issuesAfter_query trivial
      intro env base claimed changes hexec
      have hplan := (exec_ok hexec).1
      simp only [Stmt.plan, Except.ok.injEq, Prod.mk.injEq] at hplan
      obtain ⟨rfl, rfl⟩ := hplan
      exact @claim_delivers _ ⟨_, env, base, _, _, _, hexec⟩ _ _ _ rfl trace
  | queueById queue ids worker token =>
      apply Program.issuesAfter_bind
      apply (requireWorker_guarded worker queue token).issuesAfter_bind
        (fun _ _ _ => trivial)
      intro trace _
      apply issuesAfter_query trivial
      intro env base claimed changes hexec
      have hplan := (exec_ok hexec).1
      simp only [Stmt.plan, Except.ok.injEq, Prod.mk.injEq] at hplan
      obtain ⟨rfl, rfl⟩ := hplan
      exact @claim_delivers _ ⟨_, env, base, _, _, _, hexec⟩ _ _ _ rfl trace
  | lockTaskWithToken taskId worker queue token =>
      exact Program.issuesAfter_bind
        (lockTask_delivers taskId worker queue token)
  | _ => exact hother fun _ _ => trivial

/-- A statement of the history enqueued the task of the row. -/
def EnqueuedIn (trace : List (Ran sql)) (row : JobRow) : Prop :=
  ∃ item ∈ trace, ∃ (queue : String) (batch : List NewJob), ∃ task ∈ batch,
    item.stmt = .insertJobs queue batch ∧ row.SameTask (task.row queue)

theorem enqueued_of_serial {trace : List (Ran sql)}
    (hserial : jobCells.Serial .empty trace) (id : String) :
    ∀ row, (Db.empty.apply (written trace)).jobs.get? id = some row →
      EnqueuedIn trace row := by
  refine hserial.rule (fun _ value => ∀ row, value = some row →
    EnqueuedIn trace row) ?_ (fun _ _ _ _ _ h => h) ?_
  · intro row hnone
    cases hnone
  · intro before item hitem hwrites hbefore row hrow
    obtain ⟨change, hchange, rfl⟩ := List.mem_map.mp hwrites
    have hstep := (exec_executed item.executed).jobStep hchange
    have hafter : change.after = some row :=
      (written_job item hchange item.view).symm.trans hrow
    cases hfound : change.before with
    | none =>
        obtain ⟨queue, batch, task, htask, hstmt, heq⟩ := hstep.enqueued hfound
        rw [heq] at hafter
        obtain rfl := Option.some.inj hafter
        exact ⟨item, hitem, queue, batch, task, htask, hstmt, .refl _⟩
    | some old =>
        obtain ⟨origin, horigin, queue, batch, task, htask, hstmt, hsame⟩ :=
          hbefore old (hstep.reads.before_eq.symm.trans hfound)
        exact ⟨origin, horigin, queue, batch, task, htask, hstmt,
          (hstep.sameTask hfound hafter).trans hsame⟩

/-- What a claim hands out is what a push enqueued.  In every interleaving,
each task a committed claim returned carries the payload, the id, the queue and
the budget of a task of some committed push. -/
theorem delivered_as_enqueued {server : PgServer}
    (h : (pgServer rows).Reachable server) {index : Nat} {session : PgSession}
    {tasks : List Task} {task : Task}
    (hsession : server.sessions[index]? = some session)
    (hcommitted : session.stage = .committed (.tasks tasks))
    (htask : task ∈ tasks) :
    ∃ (other : Nat) (push : PgSession) (queue : String) (batch : List NewJob)
      (enqueued : NewJob), server.sessions[other]? = some push ∧
      push.stage.isCommitted = true ∧
      push.op = .pushTasksOnConn queue batch ∧ enqueued ∈ batch ∧
      task.args = enqueued.job ∧
      task.parts.taskId = some enqueued.id ∧
      task.parts.ctx.queue = some queue ∧
      task.parts.ctx.maxAttempts = enqueued.maxAttempts := by
  obtain ⟨order, horder, hcells⟩ := Server.reachable_commitOrder h
  have hserial := hcells jobCells
  obtain ⟨item, hitem, change, hchange, row, hafter, hclaimed⟩ :=
    Server.reachable_post h hsession (program_delivers session.op) hcommitted
      task htask
  have hran : item ∈ server.statements order := List.mem_flatMap.mpr
    ⟨index, (horder.committed index).mpr
      ⟨session, hsession, by rw [hcommitted]; rfl⟩, by
      rw [hsession]
      exact hitem⟩
  obtain ⟨before, after, hsplit⟩ := List.append_of_mem hran
  have hstored : (Db.empty.apply (written (before ++ [item]))).jobs.get?
      change.key = some row := by
    rw [← hafter]
    exact (congrArg (fun view : Db => view.jobs.get? change.key)
      (Cells.apply_concat Db.empty before item)).trans
        (written_job item hchange _)
  rw [hsplit, List.append_cons] at hserial
  obtain ⟨origin, horigin, queue, batch, enqueued, hbatch, hstmt, hsame⟩ :=
    enqueued_of_serial hserial.left change.key row hstored
  obtain ⟨other, hother, push, hpush, hissued⟩ :=
    Server.mem_statements (show origin ∈ server.statements order by
      rw [hsplit, List.append_cons]
      exact List.mem_append_left _ horigin)
  obtain ⟨found, hfound, hdone⟩ := (horder.committed other).mp hother
  rw [hpush] at hfound
  obtain rfl := Option.some.inj hfound
  obtain ⟨earlier, rest, htrace⟩ := List.append_of_mem hissued
  have hop := (session_ordered h hpush
    (show push.Issued earlier origin from ⟨rest, by simp [htrace]⟩)).1
  rw [hstmt] at hop
  have hpos := (storable_of_accepted ((exec_executed
    item.executed).row_accepted hchange hafter).1).maxAttempts_pos
  have hcopies := hclaimed.copies
  refine ⟨other, push, queue, batch, enqueued, hpush, hdone, hop, hbatch,
    hcopies.args.trans hsame.job, ?_, ?_, ?_⟩
  · rw [hcopies.taskId, hsame.id]
    rfl
  · rw [hcopies.queue, hsame.jobType]
    rfl
  · rw [hcopies.maxAttempts, max_eq_left hpos.le, hsame.maxAttempts]
    rfl

/-- The tasks that a session has handed out. -/
def handedOut (session : PgSession) : List Task :=
  match session.stage with
  | .committed (.tasks tasks) => tasks
  | _ => []

theorem delivered_as_enqueued_overtaken :
    ∃ (session : PgSession), overtaken.sessions[2]? = some session ∧
      handedOut session ≠ [] ∧
      ∀ task ∈ handedOut session, ∃ (other : Nat) (push : PgSession)
        (queue : String) (batch : List NewJob) (enqueued : NewJob),
        overtaken.sessions[other]? = some push ∧
        push.op = .pushTasksOnConn queue batch ∧ enqueued ∈ batch ∧
        task.args = enqueued.job ∧
        task.parts.taskId = some enqueued.id := by
  have hfetch : (overtaken.sessions[2]?.map fun session =>
      (handedOut session).isEmpty) = some false := by decide +kernel
  obtain ⟨session, hsession, hsome⟩ := Option.map_eq_some_iff.mp hfetch
  refine ⟨session, hsession, by simpa using hsome, ?_⟩
  intro task htask
  unfold handedOut at htask
  split at htask
  · rename_i tasks hcommitted
    obtain ⟨other, push, queue, batch, enqueued, hpush, _, hop, hbatch, hargs,
      hid, _⟩ := delivered_as_enqueued overtaken_reachable hsession hcommitted
        htask
    exact ⟨other, push, queue, batch, enqueued, hpush, hop, hbatch, hargs, hid⟩
  · cases htask

end ApalisPostgres
