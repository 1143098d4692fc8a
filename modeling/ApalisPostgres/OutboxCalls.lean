/-
The outbox: tasks enqueued on a connection of the caller.  The four calls are
one, a batch that is written in a transaction of its own: as a savepoint where
the caller has a transaction open, so that a refused batch leaves it usable.
-/
import ApalisPostgres.ClaimOutcome
import ApalisPostgres.IdempotencyConflicts
import ApalisPostgres.NestedTransactions

namespace ApalisPostgres

open RowStore

/-- `PgTask<Args>` as a caller of the outbox builds it. -/
structure PgTask (Args : Type) where
  args : Args
  taskId : Option Ulid
  runAt : UInt64
  maxAttempts : Int32
  priority : Int32
  metadata : List (String × Json)
  idempotencyKey : Option String

/-- `PgTask::new`: the parts are those of `template`, without an id. -/
def PgTask.new {Args : Type} (template : PgTask Unit) (args : Args) :
    PgTask Args :=
  ⟨args, none, template.runAt, template.maxAttempts, template.priority,
    template.metadata, template.idempotencyKey⟩

/-- The task with its payload encoded and its id fixed. -/
def PgTask.compact {Args : Type} (task : PgTask Args) (payload : List UInt8)
    (taskId : Ulid) : SubmittedTask :=
  ⟨payload, some taskId, task.runAt, task.maxAttempts, task.priority,
    task.metadata, task.idempotencyKey⟩

/-- What the outbox of a storage uses: its queue, its codec and the text of
the metadata. -/
structure Outbox (Args : Type) where
  queue : String
  encode : Args → Except String (List UInt8)
  json : JsonText

/-- What one call meets: the ids `Ulid::new` makes, the parts `PgTask::new`
gives, what its statement observes and how the server may fail it. -/
structure OutboxWorld where
  fresh : Nat → Ulid
  template : PgTask Unit
  env : Env
  fault : Option DieselError

/-- The answer of a connection that a failed statement blocks. -/
def inFailedTransaction : DieselError :=
  .databaseError .unknown "current transaction is aborted, commands ignored until end of transaction block"

variable {Args Data : Type}

namespace Outbox

variable (outbox : Outbox Args) (world : OutboxWorld)

/-- `push_tasks_on_conn` on the connection of the caller. -/
def pushTasksOnConn (tasks : List SubmittedTask)
    (conn : Connection (Db × Data)) : Except Error Unit × Connection (Db × Data) :=
  match Push.prepareBatch outbox.json.toText world.fresh outbox.queue tasks with
  | .error error => (.error error, conn)
  | .ok none => (.ok (), conn)
  | .ok (some batch) =>
      Connection.transaction (Error.ofTransaction inFailedTransaction)
        ((Push.insertPrepared outbox.json batch).perform
          (sql.withFaults.beside Data) (fun _ => (world.env, world.fault))
          inFailedTransaction 0) conn

/-- `push_task_with_conn`. -/
def pushTaskWithConn (task : PgTask Args) (conn : Connection (Db × Data)) :
    Except Error Ulid × Connection (Db × Data) :=
  match outbox.encode task.args with
  | .error message => (.error (.decode message), conn)
  | .ok payload =>
      let taskId := task.taskId.getD (world.fresh 0)
      let pushed := outbox.pushTasksOnConn world [task.compact payload taskId]
        conn
      (pushed.1.map fun _ => taskId, pushed.2)

/-- `push_with_conn`. -/
def pushWithConn (args : Args) (conn : Connection (Db × Data)) :
    Except Error Ulid × Connection (Db × Data) :=
  outbox.pushTaskWithConn world (.new world.template args) conn

/-- The loop over a batch, from position `i` on: the tasks in their compact
form, and their ids. -/
def compactAll (i : Nat) :
    List (PgTask Args) → Except Error (List SubmittedTask × List Ulid)
  | [] => .ok ([], [])
  | task :: rest =>
      match outbox.encode task.args with
      | .error message => .error (.decode message)
      | .ok payload =>
          let taskId := task.taskId.getD (world.fresh i)
          match compactAll (i + 1) rest with
          | .error error => .error error
          | .ok (tasks, ids) =>
              .ok (task.compact payload taskId :: tasks, taskId :: ids)

/-- `push_tasks_with_conn`. -/
def pushTasksWithConn (tasks : List (PgTask Args))
    (conn : Connection (Db × Data)) :
    Except Error (List Ulid) × Connection (Db × Data) :=
  match outbox.compactAll world 0 tasks with
  | .error error => (.error error, conn)
  | .ok (compact, ids) =>
      let pushed := outbox.pushTasksOnConn world compact conn
      (pushed.1.map fun _ => ids, pushed.2)

/-- `push_batch_with_conn`. -/
def pushBatchWithConn (batch : List Args) (conn : Connection (Db × Data)) :
    Except Error (List Ulid) × Connection (Db × Data) :=
  outbox.pushTasksWithConn world (batch.map (.new world.template)) conn

end Outbox

/-- A call of the outbox. -/
inductive OutboxCall (Args : Type) where
  | push (args : Args)
  | pushTask (task : PgTask Args)
  | pushBatch (batch : List Args)
  | pushTasks (tasks : List (PgTask Args))

/-- The tasks of a call. -/
def OutboxCall.tasks (call : OutboxCall Args) (world : OutboxWorld) :
    List (PgTask Args) :=
  match call with
  | .push args => [.new world.template args]
  | .pushTask task => [task]
  | .pushBatch batch => batch.map (.new world.template)
  | .pushTasks tasks => tasks

/-- The call on a connection, with the ids it returns as a list. -/
def OutboxCall.run (outbox : Outbox Args) (world : OutboxWorld)
    (call : OutboxCall Args) (conn : Connection (Db × Data)) :
    Except Error (List Ulid) × Connection (Db × Data) :=
  match call with
  | .push args =>
      let pushed := outbox.pushWithConn world args conn
      (pushed.1.map fun taskId => [taskId], pushed.2)
  | .pushTask task =>
      let pushed := outbox.pushTaskWithConn world task conn
      (pushed.1.map fun taskId => [taskId], pushed.2)
  | .pushBatch batch => outbox.pushBatchWithConn world batch conn
  | .pushTasks tasks => outbox.pushTasksWithConn world tasks conn

theorem FreshIds.cons {queue : String} {jobs : JobTable} {task : NewJob}
    {rest : List NewJob} (hfresh : jobs.get? task.id = none)
    (h : FreshIds (jobs.put (task.row queue)) rest) :
    FreshIds jobs (task :: rest) := by
  have hother : ∀ other ∈ rest, task.id ≠ other.id ∧
      jobs.get? other.id = none := by
    intro other hmem
    have hget := h.fresh other hmem
    rw [Table.get?_put] at hget
    by_cases hid : (task.row queue).id = other.id
    · simp [hid] at hget
    · rw [if_neg hid] at hget
      exact ⟨hid, hget⟩
  constructor
  · rw [List.map_cons, List.nodup_cons]
    refine ⟨?_, h.nodup⟩
    intro hmem
    obtain ⟨other, hmem, hsame⟩ := List.mem_map.mp hmem
    exact (hother other hmem).1 hsame.symm
  · intro other hmem
    rcases List.mem_cons.mp hmem with rfl | hmem
    · exact hfresh
    · exact (hother other hmem).2

/-- The first task of an INSERT that was accepted was skipped for its key, or
its row was written under a free id. -/
theorem insertedRows_cons {queue : String} {jobs : JobTable} {task : NewJob}
    {rest : List NewJob} {rows : List JobRow}
    (h : insertedRows queue jobs (task :: rest) = .ok rows) :
    (∃ key, task.idempotencyKey = some key ∧ key ∈ storedKeys queue jobs ∧
      insertedRows queue jobs rest = .ok rows) ∨
    (∀ key, task.idempotencyKey = some key → key ∉ storedKeys queue jobs) ∧
      jobs.get? task.id = none ∧ ∃ inserted,
        insertedRows queue (jobs.put (task.row queue)) rest = .ok inserted ∧
          rows = task.row queue :: inserted := by
  have hany : (task.idempotencyKey.isSome && jobs.rows.any (fun row =>
      row.jobType = queue && row.idempotencyKey = task.idempotencyKey)) = true ↔
      ∃ key, task.idempotencyKey = some key ∧ key ∈ storedKeys queue jobs := by
    cases task.idempotencyKey with
    | none => simp
    | some key => simp [mem_storedKeys]
  unfold insertedRows at h
  cases hrow : rowViolation (task.row queue) with
  | some violated => simp [hrow] at h
  | none =>
      simp only [hrow] at h
      split at h
      · rename_i hskipped
        obtain ⟨key, hkey, hstored⟩ := hany.mp hskipped
        exact Or.inl ⟨key, hkey, hstored, h⟩
      · rename_i hkept
        have hfree : ∀ key, task.idempotencyKey = some key →
            key ∉ storedKeys queue jobs :=
          fun key hkey hstored => hkept (hany.mpr ⟨key, hkey, hstored⟩)
        cases hget : jobs.get? task.id with
        | some row => simp [hget] at h
        | none =>
            simp only [hget, Option.isSome_none, Bool.false_eq_true,
              ↓reduceIte] at h
            cases hrest : insertedRows queue (jobs.put (task.row queue)) rest with
            | error fault => simp [hrest, bind, Except.bind] at h
            | ok inserted =>
                simp only [hrest, bind, Except.bind, pure, Except.pure,
                  Except.ok.injEq] at h
                exact Or.inr ⟨hfree, rfl, inserted, rfl, h.symm⟩

/-- Whatever the ids of a batch, what an accepted INSERT wrote are the tasks
whose keys were free, each under a free id. -/
theorem insertedRows_landed {queue : String} {jobs : JobTable}
    {batch : List NewJob} {rows : List JobRow}
    (h : insertedRows queue jobs batch = .ok rows) :
    rows = (landed (storedKeys queue jobs) batch).map
        (fun task => task.row queue) ∧
      FreshIds jobs (landed (storedKeys queue jobs) batch) := by
  induction batch generalizing jobs rows with
  | nil =>
      cases h
      exact ⟨rfl, List.nodup_nil, by simp [landed]⟩
  | cons task rest ih =>
      rcases insertedRows_cons h with ⟨key, hkey, hstored, hrest⟩ |
        ⟨hfree, hget, inserted, hrest, rfl⟩
      · simpa [landed, hkey, hstored] using ih hrest
      · obtain ⟨hrows, hids⟩ := ih hrest
        rw [storedKeys_put hget] at hrows hids
        have hlanded : landed (storedKeys queue jobs) (task :: rest) =
            task :: landed (storedKeys queue jobs ++
              task.idempotencyKey.toList) rest := by
          cases hkey : task.idempotencyKey with
          | none => simp [landed, hkey]
          | some key =>
              have hcongr : landed (storedKeys queue jobs ++ [key]) rest =
                  landed (key :: storedKeys queue jobs) rest :=
                landed_congr (by simp [or_comm]) rest
              simp [landed, hkey, hfree key hkey, hcongr]
        rw [hlanded]
        exact ⟨by rw [hrows]; rfl, hids.cons hget⟩

theorem exec_insertJobs_landed {queue : String} {batch : List NewJob}
    {env : Env} {db : Db} {inserted : List (Option String)}
    {changes : List Effect}
    (h : sql.exec (.insertJobs queue batch) env db = .ok (inserted, changes)) :
    inserted = (landed (storedKeys queue db.jobs) batch).map
        NewJob.idempotencyKey ∧
      FreshIds db.jobs (landed (storedKeys queue db.jobs) batch) := by
  change Stmt.exec _ _ _ = _ at h
  cases hrows : insertedRows queue db.jobs batch with
  | error fault =>
      simp [Stmt.exec, Stmt.plan, hrows, bind, Except.bind] at h
  | ok rows =>
      obtain ⟨rfl, hids⟩ := insertedRows_landed hrows
      simp only [Stmt.exec, Stmt.plan, hrows, bind, Except.bind, pure,
        Except.pure] at h
      split at h
      · cases h
      · cases h
        exact ⟨by simp [Function.comp_def, NewJob.row], hids⟩

/-- The rows a call asks for, under the ids it returns. -/
def outboxJobs (compact : List SubmittedTask) (ids : List Ulid) :
    List NewJob :=
  List.zipWith SubmittedTask.newJob compact ids

namespace Outbox

variable {outbox : Outbox Args} {world : OutboxWorld} {db : Db}
  {tasks : List (PgTask Args)} {compact : List SubmittedTask} {ids : List Ulid}

/-- What the loop over a batch keeps of it. -/
structure Compacted (tasks : List (PgTask Args)) (compact : List SubmittedTask)
    (ids : List Ulid) : Prop where
  length : compact.length = tasks.length
  taskIds : compact.map SubmittedTask.taskId = ids.map some
  keys : Push.keysOf compact = tasks.filterMap PgTask.idempotencyKey

theorem compacted_of_compactAll {i : Nat}
    (h : outbox.compactAll world i tasks = .ok (compact, ids)) :
    Compacted tasks compact ids := by
  induction tasks generalizing i compact ids with
  | nil =>
      cases h
      exact ⟨rfl, rfl, rfl⟩
  | cons task rest ih =>
      cases hencode : outbox.encode task.args with
      | error message => simp [compactAll, hencode] at h
      | ok payload =>
          cases hrest : outbox.compactAll world (i + 1) rest with
          | error error => simp [compactAll, hencode, hrest] at h
          | ok pair =>
              simp only [compactAll, hencode, hrest, Except.ok.injEq,
                Prod.mk.injEq] at h
              obtain ⟨rfl, rfl⟩ := h
              have htail := ih hrest
              constructor
              · simp [htail.length]
              · simp [htail.taskIds, PgTask.compact]
              · have hkeys := htail.keys
                cases hkey : task.idempotencyKey <;>
                  simp_all [Push.keysOf, PgTask.compact]

/-- The loop fails with the first payload that does not encode. -/
theorem compactAll_error {i : Nat} {error : Error}
    (h : outbox.compactAll world i tasks = .error error) :
    ∃ task ∈ tasks, ∃ message, outbox.encode task.args = .error message ∧
      error = .decode message := by
  induction tasks generalizing i with
  | nil => cases h
  | cons task rest ih =>
      cases hencode : outbox.encode task.args with
      | error message =>
          simp only [compactAll, hencode, Except.error.injEq] at h
          exact ⟨task, List.mem_cons_self, message, hencode, h.symm⟩
      | ok payload =>
          cases hrest : outbox.compactAll world (i + 1) rest with
          | error refused =>
              simp only [compactAll, hencode, hrest, Except.error.injEq] at h
              obtain ⟨other, hmem, found⟩ := ih (hrest.trans (congrArg _ h))
              exact ⟨other, List.mem_cons_of_mem _ hmem, found⟩
          | ok pair => simp [compactAll, hencode, hrest] at h

theorem Compacted.batchJobs (h : Compacted tasks compact ids)
    (fresh : Nat → Ulid) :
    Push.batchJobs fresh compact = outboxJobs compact ids := by
  have hlength : compact.length = ids.length := by
    simpa using congrArg List.length h.taskIds
  apply List.ext_getElem
  · simp [outboxJobs, hlength]
  · intro i hleft hright
    have hi : i < compact.length := by simpa using hleft
    have hids : i < ids.length := hlength ▸ hi
    have hid : compact[i].taskId = some ids[i] := by
      have hget := List.getElem_of_eq h.taskIds (i := i) (by simpa using hi)
      simpa using hget
    simp [Push.batchJobs, outboxJobs, hid]

/-- A batch the outbox takes: its payloads encode, its tasks are within the
caps and the rules of their columns, no key of it is stored or repeated, no id
is, and the server serves its statement. -/
structure Takes (outbox : Outbox Args) (world : OutboxWorld) (db : Db)
    (tasks : List (PgTask Args)) (compact : List SubmittedTask)
    (ids : List Ulid) : Prop where
  encoded : outbox.compactAll world 0 tasks = .ok (compact, ids)
  submittable : Push.Submittable outbox.json outbox.queue compact
  unclaimed : Unclaimed (storedKeys outbox.queue db.jobs) (Push.keysOf compact)
  freshIds : FreshIds db.jobs (outboxJobs compact ids)
  served : world.fault = none ∨ tasks = []

/-- The statement of a batch fails so: on the values it binds, on the rows it
would insert, or because the server does not serve it. -/
def StatementFails (outbox : Outbox Args) (world : OutboxWorld) (db : Db)
    (compact : List SubmittedTask) (fault : DieselError) : Prop :=
  ∃ batch, Push.prepareBatch outbox.json.toText world.fresh outbox.queue
      compact = .ok (some batch) ∧
    (batch.binds.newJobs outbox.json = .error fault ∨
      ∃ jobs, batch.binds.newJobs outbox.json = .ok jobs ∧
        sql.withFaults.exec (.insertJobs outbox.queue jobs)
          (world.env, world.fault) db = .error fault)

/-- How the outbox refuses a batch. -/
inductive Refuses (outbox : Outbox Args) (world : OutboxWorld) (db : Db)
    (tasks : List (PgTask Args)) : Error → Prop where
  | decode {task : PgTask Args} {message : String} (htask : task ∈ tasks)
      (hencode : outbox.encode task.args = .error message) :
      Refuses outbox world db tasks (.decode message)
  | argument {compact : List SubmittedTask} {ids : List Ulid}
      {task : SubmittedTask} {error : Error} {message : String}
      (hcompact : outbox.compactAll world 0 tasks = .ok (compact, ids))
      (htask : task ∈ compact)
      (hcap : Push.validateTask outbox.json.toText outbox.queue task =
        .error error)
      (hmessage : Push.prepareBatch outbox.json.toText world.fresh outbox.queue
        compact = .error (.invalidArgument message)) :
      Refuses outbox world db tasks (.invalidArgument message)
  | statement {compact : List SubmittedTask} {ids : List Ulid}
      {fault : DieselError}
      (hcompact : outbox.compactAll world 0 tasks = .ok (compact, ids))
      (hfails : StatementFails outbox world db compact fault) :
      Refuses outbox world db tasks (.database "inserting jobs" fault)
  | conflict {keys : List String} (hnonempty : keys ≠ [])
      (hkeys : ∀ key, key ∈ keys ↔ Collides (storedKeys outbox.queue db.jobs)
        (tasks.filterMap PgTask.idempotencyKey) key) :
      Refuses outbox world db tasks
        (.idempotencyConflict outbox.queue keys tasks.length)

/-- The transaction of a batch, executed alone. -/
def executed (outbox : Outbox Args) (world : OutboxWorld)
    (compact : List SubmittedTask) (db : Db) : BodyEnd Db Effect Error Unit :=
  (Push.pushTasksOnConn outbox.json world.fresh outbox.queue compact).execute
    sql.withFaults (fun _ => (world.env, world.fault)) db

/-- Wherever the caller stands, a batch ends as it does alone and leaves the
transactions of the caller as they are. -/
theorem pushTasksOnConn_eq {conn : Connection (Db × Data)}
    (hready : conn.blocked = false) (compact : List SubmittedTask) :
    outbox.pushTasksOnConn world compact conn =
      ((outbox.executed world compact conn.view.1).outcome,
        { conn with view := ((outbox.executed world compact conn.view.1).view,
          conn.view.2) }) := by
  unfold pushTasksOnConn executed Push.pushTasksOnConn
  cases Push.prepareBatch outbox.json.toText world.fresh outbox.queue compact with
  | error error => rfl
  | ok prepared =>
      cases prepared with
      | none => rfl
      | some batch =>
          exact Program.transaction_perform (M := sql.withFaults) _ _ _ _ conn
            hready

/-- A batch that is taken is appended whole, in order. -/
theorem Takes.executed (h : Takes outbox world db tasks compact ids) :
    (outbox.executed world compact db).outcome = .ok () ∧
      (outbox.executed world compact db).view.jobs.rows = db.jobs.rows ++
        (outboxJobs compact ids).map (fun job => job.row outbox.queue) ∧
      (outbox.executed world compact db).view.workers = db.workers := by
  have hcompacted := compacted_of_compactAll h.encoded
  have hjobs := hcompacted.batchJobs world.fresh
  rcases h.served with hserved | rfl
  · have hpushed : outbox.executed world compact db =
        Push.pushed outbox.json world.fresh outbox.queue compact
          (fun _ => world.env) db := by
      unfold Outbox.executed
      rw [hserved]
      exact Program.execute_withFaults_none _ _ _
    rw [hpushed, ← hjobs]
    exact Push.pushed_inserted h.submittable (hjobs ▸ h.freshIds) h.unclaimed _
  · cases h.encoded
    simp [Outbox.executed, Push.pushTasksOnConn, Push.prepareBatch, outboxJobs,
      Program.execute, Program.runBody]

/-- A keyless batch, and a keyed one that did not fall short, landed whole. -/
theorem landed_whole {batch : PreparedBatch} {stored : List String}
    {fresh : Nat → Ulid}
    (hbatch : Push.prepareBatch outbox.json.toText fresh outbox.queue compact =
      .ok (some batch))
    (hwhole : ¬ (batch.anyIdempotencyKey = true ∧
      (landed stored (Push.batchJobs fresh compact)).length <
        batch.taskCount)) :
    landed stored (Push.batchJobs fresh compact) =
      Push.batchJobs fresh compact := by
  obtain ⟨hcarries, _, hcount, hany⟩ :=
    Push.prepareBatch_some outbox.json.toText fresh hbatch
  by_cases hkeyed : batch.anyIdempotencyKey = true
  · apply (landed_sublist _ _).eq_of_length_le
    have hlong := fun hshort => hwhole ⟨hkeyed, hshort⟩
    rw [hcount, hcarries.lengths.1] at hlong
    simpa using hlong
  · apply landed_of_keyless
    intro job hjob
    obtain ⟨task, htask, id, rfl⟩ := Push.mem_batchJobs hjob
    by_contra hsome
    apply hkeyed
    rw [hany, hcarries.idempotencyKeys, List.any_map, List.any_eq_true]
    exact ⟨task, htask, Option.isSome_iff_ne_none.mpr hsome⟩

/-- What an INSERT that landed whole says about its batch. -/
theorem takes_of_landed {batch : PreparedBatch}
    {inserted : List (Option String)} {changes : List Effect}
    (hencoded : outbox.compactAll world 0 tasks = .ok (compact, ids))
    (hserved : world.fault = none)
    (hvalid : ∀ task ∈ compact,
      Push.validateTask outbox.json.toText outbox.queue task = .ok ())
    (hread : textAccepts outbox.queue = true ∧ ∀ task ∈ compact, task.Readable)
    (hexec : sql.exec (.insertJobs outbox.queue
      (Push.batchJobs world.fresh compact)) world.env db =
        .ok (inserted, changes))
    (hbatch : Push.prepareBatch outbox.json.toText world.fresh outbox.queue
      compact = .ok (some batch))
    (hwhole : ¬ (batch.anyIdempotencyKey = true ∧
      inserted.length < batch.taskCount)) :
    Takes outbox world db tasks compact ids := by
  have hjobs := (compacted_of_compactAll hencoded).batchJobs world.fresh
  obtain ⟨hinserted, hids⟩ := exec_insertJobs_landed hexec
  rw [hinserted, List.length_map] at hwhole
  have hall := landed_whole hbatch hwhole
  have hcolumns : ∀ task ∈ compact,
      Push.WithinColumns outbox.queue task := by
    intro task htask
    have hmem : ∃ id, task.newJob id ∈ Push.batchJobs world.fresh compact :=
      Push.newJob_mem_batchJobs htask
    obtain ⟨id, hid⟩ := hmem
    have hrow : rowViolation ((task.newJob id).row outbox.queue) = none := by
      by_contra hbad
      obtain ⟨fault, hfault⟩ := exec_insertJobs_refused hid hbad world.env db
      rw [hexec] at hfault
      cases hfault
    obtain ⟨hmax, hprio⟩ :=
      (Push.rowViolation_newJob_iff outbox.queue task id).mp hrow
    exact ⟨hread.1, hread.2 task htask, hmax, hprio⟩
  constructor
  · exact hencoded
  · exact fun task htask => ⟨hvalid task htask, hcolumns task htask⟩
  · rw [← Push.batchJobs_filterMap world.fresh]
    by_contra hclash
    have hshort := landed_short_iff.mpr hclash
    rw [hall] at hshort
    exact Nat.lt_irrefl _ hshort
  · rw [← hjobs, ← hall]
    exact hids
  · exact Or.inl hserved

/-- What an INSERT that fell short says about its batch. -/
theorem refuses_of_short {batch : PreparedBatch}
    {inserted : List (Option String)} {changes : List Effect}
    (hcompacted : Compacted tasks compact ids)
    (hexec : sql.exec (.insertJobs outbox.queue
      (Push.batchJobs world.fresh compact)) world.env db =
        .ok (inserted, changes))
    (hbatch : Push.prepareBatch outbox.json.toText world.fresh outbox.queue
      compact = .ok (some batch))
    (hshort : inserted.length < batch.taskCount) :
    Refuses outbox world db tasks (.idempotencyConflict outbox.queue
      (conflictingKeys (batch.binds.idempotencyKeys.filterMap id) inserted [])
      batch.taskCount) := by
  obtain ⟨hcarries, _, hcount, _⟩ :=
    Push.prepareBatch_some outbox.json.toText world.fresh hbatch
  obtain ⟨hinserted, _⟩ := exec_insertJobs_landed hexec
  have htotal : batch.taskCount = compact.length := by
    rw [hcount, hcarries.lengths.1]
  have hbound : batch.binds.idempotencyKeys.filterMap id =
      (Push.batchJobs world.fresh compact).filterMap
        NewJob.idempotencyKey := by
    rw [Push.batchJobs_filterMap, hcarries.idempotencyKeys,
      List.filterMap_map]
    rfl
  have hkeys : tasks.filterMap PgTask.idempotencyKey =
      (Push.batchJobs world.fresh compact).filterMap
        NewJob.idempotencyKey := by
    rw [Push.batchJobs_filterMap, hcompacted.keys]
  have hreported : ∀ key, key ∈ conflictingKeys
      ((Push.batchJobs world.fresh compact).filterMap NewJob.idempotencyKey)
      ((landed (storedKeys outbox.queue db.jobs)
        (Push.batchJobs world.fresh compact)).map NewJob.idempotencyKey) [] ↔
      Collides (storedKeys outbox.queue db.jobs) _ key :=
    fun _ => mem_reported
  rw [htotal, hcompacted.length, hbound, hinserted]
  apply Refuses.conflict
  · intro hnone
    rw [hinserted, htotal, List.length_map,
      ← Push.length_batchJobs world.fresh compact, landed_short_iff,
      unclaimed_iff] at hshort
    apply hshort
    intro key hcollides
    have hmem := (hreported key).mpr hcollides
    rw [hnone] at hmem
    cases hmem
  · rw [hkeys]
    exact hreported

theorem takes_nil
    (hencoded : outbox.compactAll world 0 tasks = .ok ([], ids)) :
    Takes outbox world db tasks [] ids := by
  have htasks : tasks = [] := List.length_eq_zero_iff.mp
    (compacted_of_compactAll hencoded).length.symm
  exact ⟨hencoded, by simp [Push.Submittable],
    ⟨by simp [Push.keysOf], by simp [Push.keysOf]⟩,
    ⟨by simp [outboxJobs], by simp [outboxJobs]⟩, Or.inr htasks⟩

/-- How the INSERT of a batch within the caps ends that is not taken. -/
theorem insertPrepared_not_taken {batch : PreparedBatch}
    (hencoded : outbox.compactAll world 0 tasks = .ok (compact, ids))
    (hvalid : ∀ task ∈ compact,
      Push.validateTask outbox.json.toText outbox.queue task = .ok ())
    (hbatch : Push.prepareBatch outbox.json.toText world.fresh outbox.queue
      compact = .ok (some batch))
    (hnot : ¬ Takes outbox world db tasks compact ids) :
    ∃ error, Refuses outbox world db tasks error ∧
      (Push.insertPrepared outbox.json batch).execute sql.withFaults
        (fun _ => (world.env, world.fault)) db = ⟨db, [], .error error⟩ := by
  obtain ⟨hcarries, hqueue, _, _⟩ :=
    Push.prepareBatch_some outbox.json.toText world.fresh hbatch
  cases hnew : batch.binds.newJobs outbox.json with
  | error fault =>
      refine ⟨_, .statement hencoded ⟨batch, hbatch, Or.inl hnew⟩, ?_⟩
      rw [Push.insertPrepared_eq, Push.insertJobs, hnew]
      rfl
  | ok jobs =>
      obtain ⟨hname, hread, rfl⟩ := (hcarries.newJobs_iff hqueue
        (Push.prepareBatch_seconds hbatch) jobs).mp hnew
      rw [Push.insertPrepared_statement hnew, hqueue]
      cases hexec : sql.withFaults.exec (.insertJobs outbox.queue
          (Push.batchJobs world.fresh compact)) (world.env, world.fault)
          db with
      | error fault =>
          exact ⟨_, .statement hencoded
            ⟨batch, hbatch, Or.inr ⟨_, hnew, hexec⟩⟩,
            Program.execute_statement_error hexec⟩
      | ok pair =>
          have hserved : world.fault = none ∧ sql.exec (.insertJobs
              outbox.queue (Push.batchJobs world.fresh compact)) world.env
              db = .ok pair := by
            cases hfault : world.fault with
            | none => exact ⟨rfl, by rw [← hexec, hfault]; rfl⟩
            | some fault =>
                rw [hfault] at hexec
                cases hexec
          by_cases hshort : batch.anyIdempotencyKey = true ∧
              pair.1.length < batch.taskCount
          · refine ⟨.idempotencyConflict outbox.queue (conflictingKeys
              (batch.binds.idempotencyKeys.filterMap id) pair.1 [])
              batch.taskCount, ?_, ?_⟩
            · exact refuses_of_short (compacted_of_compactAll hencoded)
                hserved.2 hbatch hshort.2
            · simp only [Program.execute, Program.runBody, hexec,
                Push.accountConflicts, if_pos hshort, hqueue]
          · exact absurd (takes_of_landed hencoded hserved.1 hvalid
              ⟨hname, hread⟩ hserved.2 hbatch hshort) hnot

/-- A batch that is not taken writes nothing, and its error says why. -/
theorem executed_refused
    (hencoded : outbox.compactAll world 0 tasks = .ok (compact, ids))
    (hnot : ¬ Takes outbox world db tasks compact ids) :
    ∃ error, Refuses outbox world db tasks error ∧
      outbox.executed world compact db = ⟨db, [], .error error⟩ := by
  by_cases hvalid : ∀ task ∈ compact,
      Push.validateTask outbox.json.toText outbox.queue task = .ok ()
  · have hempty : compact ≠ [] := by
      rintro rfl
      exact hnot (takes_nil hencoded)
    obtain ⟨batch, hbatch⟩ :=
      Push.prepareBatch_of_valid world.fresh hvalid hempty
    have hexecuted : outbox.executed world compact db =
        (Push.insertPrepared outbox.json batch).execute sql.withFaults
          (fun _ => (world.env, world.fault)) db := by
      simp only [Outbox.executed, Push.pushTasksOnConn, hbatch]
    rw [hexecuted]
    exact insertPrepared_not_taken hencoded hvalid hbatch hnot
  · push Not at hvalid
    obtain ⟨task, htask, hbad⟩ := hvalid
    cases hresult : Push.validateTask outbox.json.toText outbox.queue task with
    | ok value => exact absurd hresult hbad
    | error error =>
        have hrejected : ∃ message, Push.prepareBatch outbox.json.toText
            world.fresh outbox.queue compact =
              .error (.invalidArgument message) ∧ _ :=
          Push.pushed_rejected htask hresult (fun _ => world.env) db
        obtain ⟨message, hbatch, _⟩ := hrejected
        refine ⟨.invalidArgument message,
          .argument hencoded htask hresult hbatch, ?_⟩
        simp [Outbox.executed, Push.pushTasksOnConn, hbatch, Program.execute,
          Program.runBody]

/-- How the batch form of the outbox ends on a connection that is not
blocked. -/
theorem pushTasksWithConn_cases (outbox : Outbox Args) (world : OutboxWorld)
    (tasks : List (PgTask Args)) {conn : Connection (Db × Data)}
    (hready : conn.blocked = false) :
    (∃ compact ids after, Takes outbox world conn.view.1 tasks compact ids ∧
      after.jobs.rows = conn.view.1.jobs.rows ++
        (outboxJobs compact ids).map (fun job => job.row outbox.queue) ∧
      after.workers = conn.view.1.workers ∧
      outbox.pushTasksWithConn world tasks conn =
        (.ok ids, { conn with view := (after, conn.view.2) })) ∨
    ∃ error, (∀ compact ids, ¬ Takes outbox world conn.view.1 tasks compact ids) ∧
      Refuses outbox world conn.view.1 tasks error ∧
      outbox.pushTasksWithConn world tasks conn = (.error error, conn) := by
  cases hencoded : outbox.compactAll world 0 tasks with
  | error error =>
      obtain ⟨task, htask, message, hencode, rfl⟩ := compactAll_error hencoded
      refine Or.inr ⟨_, ?_, .decode htask hencode, ?_⟩
      · intro compact ids h
        have hok := h.encoded
        rw [hencoded] at hok
        cases hok
      · simp only [pushTasksWithConn, hencoded]
  | ok pair =>
      obtain ⟨compact, ids⟩ := pair
      have hpush : outbox.pushTasksOnConn world compact conn = _ :=
        pushTasksOnConn_eq hready compact
      by_cases htakes : Takes outbox world conn.view.1 tasks compact ids
      · obtain ⟨hok, hrows, hworkers⟩ := htakes.executed
        refine Or.inl ⟨compact, ids, _, htakes, hrows, hworkers, ?_⟩
        simp only [pushTasksWithConn, hencoded, hpush, hok, Except.map]
      · obtain ⟨error, hrefuses, hend⟩ := executed_refused hencoded htakes
        refine Or.inr ⟨error, ?_, hrefuses, ?_⟩
        · intro other otherIds h
          have hsame := h.encoded
          rw [hencoded] at hsame
          cases hsame
          exact htakes h
        · simp only [pushTasksWithConn, hencoded, hpush, hend, Except.map]

/-- One task is a batch of one. -/
theorem pushTaskWithConn_eq (outbox : Outbox Args) (world : OutboxWorld)
    (task : PgTask Args) (conn : Connection (Db × Data)) :
    ((outbox.pushTaskWithConn world task conn).1.map fun taskId => [taskId],
        (outbox.pushTaskWithConn world task conn).2) =
      outbox.pushTasksWithConn world [task] conn := by
  cases hencode : outbox.encode task.args with
  | error message =>
      simp [pushTaskWithConn, pushTasksWithConn, compactAll, hencode, Except.map]
  | ok payload =>
      simp only [pushTaskWithConn, pushTasksWithConn, compactAll, hencode]
      cases (outbox.pushTasksOnConn world
        [task.compact payload (task.taskId.getD (world.fresh 0))] conn).1 <;> rfl

end Outbox

theorem OutboxCall.run_eq (outbox : Outbox Args) (world : OutboxWorld)
    (call : OutboxCall Args) (conn : Connection (Db × Data)) :
    call.run outbox world conn =
      outbox.pushTasksWithConn world (call.tasks world) conn := by
  cases call with
  | push args => exact outbox.pushTaskWithConn_eq world _ conn
  | pushTask task => exact outbox.pushTaskWithConn_eq world task conn
  | pushBatch batch => rfl
  | pushTasks tasks => rfl

end ApalisPostgres
