/-
Which buffered tasks the database can write.  The caps that admit a task into
the buffer are weaker than the rules of the columns it is written to: a task
between the two is buffered, refused by every INSERT it is part of, and takes
the pipeline and the batch around it down.
-/
import ApalisPostgres.BatchInsert

namespace ApalisPostgres

open RowStore

/-- The metadata texts of tasks that carry none. -/
def JsonText.bare : JsonText where
  toText
    | .obj [] => .ok "\x7b\x7d"
    | _ => .error "unsupported"
  toJsonb text := if text = "\x7b\x7d" then some (.obj []) else none
  text_accepts := by
    intro value text h
    split at h <;> cases h
    decide
  toJsonb_toText := by
    intro value text h
    split at h <;> cases h
    rfl

namespace Push

/-- The rules of `apalis.jobs` for the values of an enqueued row. -/
structure ColumnRules (queue : String) (job : NewJob) : Prop where
  maxAttempts : 0 < (job.row queue).maxAttempts
  attempts : (job.row queue).attempts ≤ (job.row queue).maxAttempts
  priority : 0 ≤ (job.row queue).priority
  id : textAccepts (job.row queue).id = true
  jobType : textAccepts (job.row queue).jobType = true
  idempotencyKey : ∀ key, (job.row queue).idempotencyKey = some key →
    textAccepts key = true
  metadata : ∀ value, (job.row queue).metadata = some value →
    jsonbAccepts value = true
  runAt : timestamptzAccepts (job.row queue).runAt = true

variable {json : JsonText} {fresh : Nat → Ulid} {queue : String}
  {task : SubmittedTask}

/-- Of the rules, the caps guarantee the one on the schedule; the id is a
ULID. -/
theorem columnRules_iff (haccepted : validateTask json.toText queue task = .ok ())
    (id : Ulid) :
    ColumnRules queue (task.newJob id) ↔ WithinColumns queue task := by
  constructor
  · intro h
    exact ⟨h.jobType, ⟨h.metadata _ rfl, h.idempotencyKey⟩, h.maxAttempts,
      h.priority⟩
  · intro h
    refine ⟨h.maxAttempts, h.maxAttempts.le, h.priority,
      id.textAccepts_toText, h.queue, h.readable.idempotencyKey, ?_,
      timestamptzAccepts_runAt (validateTask_seconds haccepted)⟩
    rintro value hvalue
    cases hvalue
    exact h.readable.metadata

/-- No row of the queue is stored, and the id is not in use. -/
structure OtherwiseEmpty (queue : String) (id : Ulid) (db : Db) : Prop where
  queue : ∀ row ∈ db.jobs.rows, row.jobType ≠ queue
  id : db.jobs.get? id.toText = none

/-- The end of the blocking run of a flush that reached the database. -/
def flushRun (json : JsonText) (fresh : Nat → Ulid) (queue : String)
    (tasks : List SubmittedTask) (env : Nat → Env) (db : Db) : FlushRun :=
  match (flushOnConn json fresh queue tasks env db).1 with
  | .ok () => .issued (.ok ())
  | .error (.uncertain error) => .issued (.error error)
  | .error (.rejected error) => .issued (.error error)
  | .error (.notStarted error) => .poolError error

theorem prepareBatch_of_valid (fresh : Nat → Ulid) {tasks : List SubmittedTask}
    (hvalid : ∀ task ∈ tasks, validateTask json.toText queue task = .ok ())
    (hne : tasks ≠ []) :
    ∃ batch, prepareBatch json.toText fresh queue tasks = .ok (some batch) := by
  cases hbatch : prepareBatch json.toText fresh queue tasks with
  | error error =>
      obtain ⟨bad, hbad, refused, hrefused⟩ :=
        (prepareBatch_error_iff queue tasks).mp ⟨error, hbatch⟩
      rw [hvalid bad hbad] at hrefused
      cases hrefused
  | ok prepared =>
      cases prepared with
      | none =>
          exact absurd ((prepareBatch_eq_none_iff _ _ _ _).mp hbatch) hne
      | some batch => exact ⟨batch, rfl⟩

/-- A task within the rules is written alone into an otherwise empty queue. -/
theorem flushOnConn_alone
    (haccepted : validateTask json.toText queue task = .ok ())
    (hcolumns : WithinColumns queue task) {db : Db} (env : Nat → Env)
    (hempty : OtherwiseEmpty queue (task.taskId.getD (fresh 0)) db) :
    flushOnConn json fresh queue [task] env db =
      (.ok (), db.apply (enqueueEffects queue
        [task.newJob (task.taskId.getD (fresh 0))])) := by
  obtain ⟨batch, hbatch⟩ := prepareBatch_of_valid fresh
    (by simpa using haccepted) (List.cons_ne_nil task [])
  have hids : FreshIds db.jobs (batchJobs fresh [task]) :=
    ⟨by simp [batchJobs], by simpa [batchJobs, SubmittedTask.newJob] using hempty.id⟩
  have hstored : storedKeys queue db.jobs = [] := by
    have hnone : db.jobs.rows.filter (fun row => row.jobType = queue) = [] := by
      apply List.filter_eq_nil_iff.mpr
      simpa using hempty.queue
    rw [storedKeys, hnone]
    rfl
  have hwhole : (landed [] (batchJobs fresh [task])).length = 1 := by
    cases hkey : task.idempotencyKey <;>
      simp [batchJobs, landed, SubmittedTask.newJob, hkey]
  have hinsert := insertPrepared_landed hbatch (by simpa using hcolumns) hids env
  rw [hstored, hwhole] at hinsert
  simp only [flushOnConn, hbatch, hinsert]
  rfl

/-- A task outside the rules fails every batch it is part of. -/
theorem flushOnConn_refused (fresh : Nat → Ulid)
    {tasks : List SubmittedTask}
    (hvalid : ∀ task ∈ tasks, validateTask json.toText queue task = .ok ())
    (htask : task ∈ tasks) (hbad : ¬ WithinColumns queue task)
    (env : Nat → Env) (db : Db) :
    ∃ fault, flushOnConn json fresh queue tasks env db =
      (.error (.uncertain (.database "inserting jobs" fault)), db) := by
  obtain ⟨batch, hbatch⟩ := prepareBatch_of_valid fresh hvalid
    (List.ne_nil_of_mem htask)
  obtain ⟨fault, hfault⟩ := insertPrepared_refused hbatch htask hbad env db
  exact ⟨fault, by simp only [flushOnConn, hbatch, hfault]; rfl⟩

/-- The flush of a pipeline that holds a task outside the rules fails the
pipeline, whatever the database stores. -/
theorem pollFlush_refused {sink : PgSink SubmittedTask}
    {polls : Nat → Option FlushRun} {env : Nat → Env} {db : Db}
    (hlive : sink.failed = false)
    (hvalid : ∀ other ∈ sink.held,
      validateTask json.toText queue other = .ok ())
    (htask : task ∈ sink.batch) (hbad : ¬ WithinColumns queue task)
    (hpoll : polls 0 = some (flushRun json fresh queue sink.batch env db)) :
    ∃ fault,
      (sink.pollFlushInner (validateTask json.toText queue) polls).poll =
        .ready (.error (.database "inserting jobs" fault)) ∧
      (sink.pollFlushInner (validateTask json.toText queue) polls).sink.failed =
        true := by
  have hbatch : ∀ other ∈ sink.batch,
      validateTask json.toText queue other = .ok () := by
    intro other hother
    apply hvalid
    rw [sink.held_eq]
    exact List.mem_append_left _ hother
  obtain ⟨fault, hfault⟩ := flushOnConn_refused fresh hbatch htask hbad env db
  have hrun : flushRun json fresh queue sink.batch env db =
      .issued (.error (.database "inserting jobs" fault)) := by
    simp [flushRun, hfault]
  have hflush : ApalisPostgres.flushTasks (validateTask json.toText queue)
      sink.batch (.issued (.error (.database "inserting jobs" fault))) =
        .error (.uncertain (.database "inserting jobs" fault)) := by
    have hsome : sink.batch.isEmpty = false := by
      rw [List.isEmpty_eq_false_iff]
      exact List.ne_nil_of_mem htask
    simp [ApalisPostgres.flushTasks, hsome, prepareBatch_ok hbatch]
  have hdrained : ¬ sink.drained = true := by
    intro hdrained
    simp only [PgSink.drained, Bool.and_eq_true, Option.isNone_iff_eq_none,
      List.isEmpty_iff] at hdrained
    rw [PgSink.batch, hdrained.1, Option.getD_none, hdrained.2] at htask
    cases htask
  have hend : sink.pollFlushInner (validateTask json.toText queue) polls =
      ⟨{ sink.settled with failed := true },
        .ready (.error (.database "inserting jobs" fault)),
        sink.submission ++ [.uncertain sink.batch]⟩ := by
    rw [PgSink.pollFlushInner, hlive]
    simp only [Bool.false_eq_true, ↓reduceIte]
    rw [PgSink.flushLoop, if_neg hdrained, hpoll, hrun]
    simp only [hflush]
  rw [hend]
  exact ⟨fault, rfl, rfl⟩

/-- The pipeline that buffers the task alone flushes it. -/
theorem pollFlush_alone {polls : Nat → Option FlushRun} {env : Nat → Env}
    {db : Db} (haccepted : validateTask json.toText queue task = .ok ())
    (hcolumns : WithinColumns queue task)
    (hempty : OtherwiseEmpty queue (task.taskId.getD (fresh 0)) db)
    (hpoll : polls 0 = some (flushRun json fresh queue [task] env db)) :
    ((PgSink.mk 1 [task] none false).pollFlushInner
      (validateTask json.toText queue) polls).sink.failed = false := by
  have hrun : flushRun json fresh queue [task] env db = .issued (.ok ()) := by
    simp [flushRun, flushOnConn_alone haccepted hcolumns env hempty]
  have hflush : ApalisPostgres.flushTasks (validateTask json.toText queue)
      [task] (.issued (.ok ())) = .ok () := by
    simp [ApalisPostgres.flushTasks, ApalisPostgres.prepareBatch, haccepted]
  rw [PgSink.pollFlushInner]
  simp only [Bool.false_eq_true, ↓reduceIte]
  rw [PgSink.flushLoop, if_neg (by simp [PgSink.drained]), hpoll, hrun]
  simp only [PgSink.batch, Option.getD_none, hflush]
  have hdrained : (PgSink.mk 1 [task] none false).settled.drained = true := rfl
  rw [PgSink.flushLoop, if_pos hdrained]
  rfl

/-- What being writable means for a task: its row satisfies every rule of the
columns, its INSERT alone into an otherwise empty queue succeeds, and not
every pipeline that holds it fails. -/
structure Writable (json : JsonText) (fresh : Nat → Ulid) (queue : String)
    (task : SubmittedTask) : Prop where
  rules : ColumnRules queue (task.newJob (task.taskId.getD (fresh 0)))
  alone : ∀ env db, OtherwiseEmpty queue (task.taskId.getD (fresh 0)) db →
    flushOnConn json fresh queue [task] env db =
      (.ok (), db.apply (enqueueEffects queue
        [task.newJob (task.taskId.getD (fresh 0))]))
  pipeline : ∃ (sink : PgSink SubmittedTask) (polls : Nat → Option FlushRun)
    (env : Nat → Env) (db : Db), sink.failed = false ∧
      (∀ other ∈ sink.held, validateTask json.toText queue other = .ok ()) ∧
      task ∈ sink.batch ∧
      polls 0 = some (flushRun json fresh queue sink.batch env db) ∧
      (sink.pollFlushInner (validateTask json.toText queue) polls).sink.failed =
        false

/-- A buffered task can be written if and only if its budget is positive, its
priority is not negative, and no U+0000 is in the queue name, its key or its
metadata; otherwise every pipeline that holds it fails. -/
theorem buffered_task_writable_iff (json : JsonText) (fresh : Nat → Ulid)
    (queue : String) (task : SubmittedTask)
    (haccepted : validateTask json.toText queue task = .ok ()) :
    (Writable json fresh queue task ↔ WithinColumns queue task) ∧
    (¬ WithinColumns queue task →
      ∀ (sink : PgSink SubmittedTask) (polls : Nat → Option FlushRun) env db,
        sink.failed = false →
        (∀ other ∈ sink.held,
          validateTask json.toText queue other = .ok ()) →
        task ∈ sink.batch →
        polls 0 = some (flushRun json fresh queue sink.batch env db) →
        (sink.pollFlushInner (validateTask json.toText queue)
          polls).sink.failed = true) := by
  constructor
  · constructor
    · intro h
      exact (columnRules_iff haccepted _).mp h.rules
    · intro hcolumns
      have hempty : OtherwiseEmpty queue (task.taskId.getD (fresh 0)) .empty :=
        ⟨by simp [Db.empty, EmptyCollection.emptyCollection, Table.empty], rfl⟩
      refine ⟨(columnRules_iff haccepted _).mpr hcolumns, ?_, ?_⟩
      · intro env db
        exact flushOnConn_alone haccepted hcolumns env
      · let env : Nat → Env := fun _ =>
          ⟨0, fun _ => false, fun _ => false, fun _ => true, true⟩
        refine ⟨⟨1, [task], none, false⟩,
          fun _ => some (flushRun json fresh queue [task] env .empty), env,
          .empty, rfl, ?_, ?_, rfl, ?_⟩
        · simpa [PgSink.held] using haccepted
        · simp [PgSink.batch]
        · exact pollFlush_alone haccepted hcolumns hempty rfl
  · intro hbad sink polls env db hlive hvalid htask hpoll
    obtain ⟨_, _, hfailed⟩ := pollFlush_refused hlive hvalid htask hbad hpoll
    exact hfailed

/-- A task with the smallest values the columns accept. -/
theorem buffered_task_writable_iff_minimal :
    let task : SubmittedTask := ⟨[], none, 0, 1, 0, [], some ""⟩
    validateTask JsonText.bare.toText "queue" task = .ok () ∧
      Writable JsonText.bare (fun i => ⟨i⟩) "queue" task := by
  intro task
  have haccepted : validateTask JsonText.bare.toText "queue" task = .ok () :=
    rfl
  obtain ⟨hiff, _⟩ :=
    buffered_task_writable_iff JsonText.bare (fun i => ⟨i⟩) "queue" task haccepted
  refine ⟨haccepted, hiff.mpr ⟨by decide, ⟨by decide, ?_⟩, by decide, by decide⟩⟩
  intro key hkey
  cases hkey
  rfl

/-- A task without a retry budget is buffered beside a healthy one; its own
INSERT violates a check, and the flush of the two fails the pipeline. -/
theorem buffered_task_without_budget :
    let task : SubmittedTask := ⟨[], none, 0, 0, 0, [], none⟩
    let sibling : SubmittedTask := ⟨[], none, 0, 25, 0, [], none⟩
    let validate := validateTask JsonText.bare.toText "queue"
    let fresh : Nat → Ulid := fun i => ⟨i⟩
    let env : Nat → Env := fun _ =>
      ⟨0, fun _ => false, fun _ => false, fun _ => true, true⟩
    let sink := ((PgSink.new 2).tryPush validate task).1
    let full := (sink.tryPush validate sibling).1
    let flush := full.pollFlushInner validate fun _ =>
      some (flushRun JsonText.bare fresh "queue" full.batch env .empty)
    validate task = .ok () ∧ full.buffer.length = 2 ∧
      ¬ ColumnRules "queue" (task.newJob (fresh 0)) ∧
      (flushOnConn JsonText.bare fresh "queue" [task] env .empty).1 =
        .error (.uncertain (.database "inserting jobs"
          Constraint.jobsMaxAttemptsCheck.fault)) ∧
      flush.poll = .ready (.error (.database "inserting jobs"
        Constraint.jobsMaxAttemptsCheck.fault)) ∧
      flush.sink.failed = true := by
  intro task sibling validate fresh env sink full flush
  refine ⟨rfl, rfl, ?_, by decide +kernel, by decide +kernel,
    by decide +kernel⟩
  intro hrules
  exact absurd hrules.maxAttempts (by decide)

end Push

end ApalisPostgres
