/-
The INSERT of a prepared batch: what the server makes of the bound arrays,
the two bodies that issue it, and the enqueue of the outbox and of the sink
over them.
-/
import ApalisPostgres.TaskBatch
import ApalisPostgres.FlushHandoff
import ApalisPostgres.Transitions

namespace ApalisPostgres

open RowStore

/-- The server's refusal of a text that holds U+0000. -/
def nulByteFault : DieselError :=
  .databaseError .unknown "invalid byte sequence for encoding \"UTF8\": 0x00"

/-- The refusal of a document that holds U+0000. -/
def unicodeEscapeFault : DieselError :=
  .databaseError .unknown "unsupported Unicode escape sequence"

def timestampRangeFault : DieselError :=
  .databaseError .unknown "timestamp out of range"

def notNullFault : DieselError :=
  .databaseError .notNullViolation "null value in column"

variable (json : JsonText)

/-- The row an INSERT proposes for one row of the `SELECT`.  The arrays of a
prepared batch have one length, so that no column is padded. -/
def UnnestedRow.proposed (row : UnnestedRow) : Except DieselError NewJob :=
  match row.id, row.job, row.maxAttempts, row.runAt, row.priority,
      row.metadata with
  | some id, some job, some maxAttempts, some runAt, some priority,
      some metaJson =>
      if timestamptzAccepts runAt then
        match json.toJsonb metaJson with
        | none => .error unicodeEscapeFault
        | some metadata =>
            .ok ⟨id, job, maxAttempts.toInt, runAt, priority.toInt, metadata,
              row.idempotencyKey.join⟩
      else .error timestampRangeFault
  | _, _, _, _, _, _ => .error notNullFault

/-- The rows an INSERT proposes, in order. -/
def proposedRows : List UnnestedRow → Except DieselError (List NewJob)
  | [] => .ok []
  | row :: rest =>
      match row.proposed json with
      | .error fault => .error fault
      | .ok job =>
          match proposedRows rest with
          | .error fault => .error fault
          | .ok jobs => .ok (job :: jobs)

/-- Every bound text is read before any row is proposed. -/
def JobBatchBinds.textsAccepted (binds : JobBatchBinds) : Bool :=
  textAccepts binds.jobType && binds.ids.all textAccepts &&
    binds.metadata.all textAccepts &&
    binds.idempotencyKeys.all fun key => key.all textAccepts

def JobBatchBinds.newJobs (binds : JobBatchBinds) :
    Except DieselError (List NewJob) :=
  if binds.textsAccepted then proposedRows json binds.unnest
  else .error nulByteFault

namespace Push

/-- `INSERT_JOBS_SQL` with its binds. -/
def insertJobs (binds : JobBatchBinds) : Tx (List (Option String)) :=
  match binds.newJobs json with
  | .error fault => .rollback (.database "inserting jobs" fault)
  | .ok jobs => query "inserting jobs" (.insertJobs binds.jobType jobs)

/-- Bare batch INSERT for key-less batches. -/
def insertBatch (batch : PreparedBatch) : Tx Unit := do
  let _ ← insertJobs json batch.binds
  return ()

/-- Keyed-batch INSERT with the conflict accountant. -/
def insertReportingConflicts (batch : PreparedBatch) : Tx Unit := do
  let inserted ← insertJobs json batch.binds
  if inserted.length < batch.taskCount then
    .rollback (.idempotencyConflict batch.binds.jobType
      (conflictingKeys (batch.binds.idempotencyKeys.filterMap id) inserted [])
      batch.taskCount)
  else return ()

/-- The statements a prepared batch is written with. -/
def insertPrepared (batch : PreparedBatch) : Tx Unit :=
  if batch.anyIdempotencyKey then insertReportingConflicts json batch
  else insertBatch json batch

/-- Connection-bound batch enqueue for the outbox. -/
def pushTasksOnConn (fresh : Nat → Ulid) (queue : String)
    (tasks : List SubmittedTask) : Tx Unit :=
  match prepareBatch json.toText fresh queue tasks with
  | .error error => .rollback error
  | .ok none => return ()
  | .ok (some batch) => insertPrepared json batch

/-- The closure of `flush_tasks` on its connection: the outcome by phase and
the database it leaves. -/
def flushOnConn (fresh : Nat → Ulid) (queue : String)
    (tasks : List SubmittedTask) (env : Nat → Env) (db : Db) :
    Except FlushPhase Unit × Db :=
  match prepareBatch json.toText fresh queue tasks with
  | .error error => (.error (.rejected error), db)
  | .ok none => (.ok (), db)
  | .ok (some batch) =>
      let stop := (insertPrepared json batch).execute sql env db
      (stop.outcome.mapError FlushPhase.uncertain, stop.view)

end Push

theorem crockfordDigits_ne_nul (n : Nat) :
    crockfordDigits.getD n (Char.ofNat 48) ≠ Char.ofNat 0 := by
  have hnul : Char.ofNat 0 ∉ crockfordDigits := by decide
  rw [List.getD_eq_getElem?_getD]
  cases hget : crockfordDigits[n]? with
  | none => decide
  | some digit =>
      rintro rfl
      exact hnul (List.mem_of_getElem? hget)

theorem Ulid.textAccepts_toText (id : Ulid) : textAccepts id.toText = true := by
  simp only [textAccepts, Ulid.toText, String.toList_ofList,
    Bool.not_eq_true', List.contains_eq_mem, decide_eq_false_iff_not,
    List.mem_map, not_exists, not_and]
  intro i _
  exact crockfordDigits_ne_nul _

/-- The row a task asks for under its id. -/
def SubmittedTask.newJob (task : SubmittedTask) (id : Ulid) : NewJob where
  id := id.toText
  job := task.args
  maxAttempts := task.maxAttempts.toInt
  runAt := toTimestamp task.runAt.toNat
  priority := task.priority.toInt
  metadata := .obj task.metadata
  idempotencyKey := task.idempotencyKey

/-- The server reads every text and document of the task. -/
structure SubmittedTask.Readable (task : SubmittedTask) : Prop where
  metadata : jsonbAccepts (.obj task.metadata) = true
  idempotencyKey : ∀ key, task.idempotencyKey = some key →
    textAccepts key = true

variable {json}

theorem proposedRows_iff {rows : List UnnestedRow} {jobs : List NewJob} :
    proposedRows json rows = .ok jobs ↔
      List.Forall₂ (fun row job => row.proposed json = .ok job) rows jobs := by
  induction rows generalizing jobs with
  | nil => simp [proposedRows, eq_comm]
  | cons row rest ih =>
      cases hrow : row.proposed json with
      | error fault => simp [proposedRows, hrow, List.forall₂_cons_left_iff]
      | ok job =>
          cases hrest : proposedRows json rest with
          | error fault =>
              have hnone : ∀ others, ¬ List.Forall₂
                  (fun row job => row.proposed json = .ok job) rest others := by
                intro others hothers
                rw [← ih, hrest] at hothers
                cases hothers
              simp [proposedRows, hrow, hrest, List.forall₂_cons_left_iff,
                hnone]
          | ok found =>
              simp only [proposedRows, hrow, hrest, Except.ok.injEq,
                List.forall₂_cons_left_iff]
              constructor
              · rintro rfl
                exact ⟨job, found, rfl, ih.mp hrest, rfl⟩
              · rintro ⟨other, others, hsame, hothers, rfl⟩
                rw [← ih, hrest, Except.ok.injEq] at hothers
                rw [hsame, hothers]

/-- The idempotency keys a queue stores. -/
def storedKeys (queue : String) (jobs : JobTable) : List String :=
  (jobs.rows.filter fun row => row.jobType = queue).filterMap
    JobRow.idempotencyKey

/-- `ON CONFLICT DO NOTHING` over a batch: the first task of every key that is
not taken lands, and every task without a key. -/
def landed (taken : List String) : List NewJob → List NewJob
  | [] => []
  | task :: rest =>
      match task.idempotencyKey with
      | none => task :: landed taken rest
      | some key =>
          if key ∈ taken then landed taken rest
          else task :: landed (key :: taken) rest

theorem landed_sublist (taken : List String) (batch : List NewJob) :
    (landed taken batch).Sublist batch := by
  induction batch generalizing taken with
  | nil => exact List.Sublist.slnil
  | cons task rest ih =>
      cases hkey : task.idempotencyKey with
      | none => simpa [landed, hkey] using ih taken
      | some key =>
          by_cases htaken : key ∈ taken
          · simpa [landed, hkey, htaken] using (ih taken).cons task
          · simpa [landed, hkey, htaken] using ih (key :: taken)

theorem landed_of_keyless {batch : List NewJob}
    (h : ∀ task ∈ batch, task.idempotencyKey = none) (taken : List String) :
    landed taken batch = batch := by
  induction batch with
  | nil => rfl
  | cons task rest ih =>
      have hrest := ih fun other hother => h other (List.mem_cons_of_mem _ hother)
      simp [landed, h task List.mem_cons_self, hrest]

theorem landed_congr {first second : List String}
    (h : ∀ key, key ∈ first ↔ key ∈ second) (batch : List NewJob) :
    landed first batch = landed second batch := by
  induction batch generalizing first second with
  | nil => rfl
  | cons task rest ih =>
      cases hkey : task.idempotencyKey with
      | none => simp [landed, hkey, ih h]
      | some key =>
          have hnext : ∀ other, other ∈ key :: first ↔ other ∈ key :: second := by
            intro other
            simp [h other]
          simp [landed, hkey, h key, ih h, ih hnext]

theorem storedKeys_put {queue : String} {jobs : JobTable} {task : NewJob}
    (hfresh : jobs.get? task.id = none) :
    storedKeys queue (jobs.put (task.row queue)) =
      storedKeys queue jobs ++ task.idempotencyKey.toList := by
  rw [storedKeys, Table.rows_put_of_fresh hfresh]
  cases hkey : task.idempotencyKey <;>
    simp [storedKeys, NewJob.row, hkey]

theorem mem_storedKeys {queue key : String} {jobs : JobTable} :
    key ∈ storedKeys queue jobs ↔
      ∃ row ∈ jobs.rows, row.jobType = queue ∧ row.idempotencyKey = some key := by
  simp [storedKeys, and_assoc]

/-- The tasks of a batch collide with no id: none is stored, none is used
twice. -/
structure FreshIds (jobs : JobTable) (batch : List NewJob) : Prop where
  nodup : (batch.map NewJob.id).Nodup
  fresh : ∀ task ∈ batch, jobs.get? task.id = none

instance (jobs : JobTable) (batch : List NewJob) :
    Decidable (FreshIds jobs batch) :=
  decidable_of_iff ((batch.map NewJob.id).Nodup ∧
      ∀ task ∈ batch, (jobs.get? task.id).isNone = true) (by
    simp only [Option.isNone_iff_eq_none]
    exact ⟨fun h => ⟨h.1, h.2⟩, fun h => ⟨h.nodup, h.fresh⟩⟩)

theorem FreshIds.rest {jobs : JobTable} {task : NewJob} {rest : List NewJob}
    (h : FreshIds jobs (task :: rest)) : FreshIds jobs rest :=
  ⟨(List.nodup_cons.mp h.nodup).2,
    fun other hother => h.fresh other (List.mem_cons_of_mem _ hother)⟩

theorem FreshIds.put {jobs : JobTable} {task : NewJob} {rest : List NewJob}
    (h : FreshIds jobs (task :: rest)) (queue : String) :
    FreshIds (jobs.put (task.row queue)) rest := by
  refine ⟨h.rest.nodup, ?_⟩
  intro other hother
  have hne : (task.row queue).id ≠ other.id := by
    intro heq
    replace heq : task.id = other.id := heq
    exact (List.nodup_cons.mp h.nodup).1 (heq ▸ List.mem_map_of_mem hother)
  rw [Table.get?_put, if_neg hne]
  exact h.rest.fresh other hother

theorem FreshIds.sublist {jobs : JobTable} {batch kept : List NewJob}
    (h : FreshIds jobs batch) (hkept : kept.Sublist batch) :
    FreshIds jobs kept :=
  ⟨(hkept.map NewJob.id).nodup h.nodup,
    fun task htask => h.fresh task (hkept.subset htask)⟩

/-- A batch of acceptable rows without an id collision lands as far as its
keys are free. -/
theorem insertedRows_eq {queue : String} {jobs : JobTable}
    {batch : List NewJob} (hids : FreshIds jobs batch)
    (hrows : ∀ task ∈ batch, rowViolation (task.row queue) = none) :
    insertedRows queue jobs batch =
      .ok ((landed (storedKeys queue jobs) batch).map
        fun task => task.row queue) := by
  induction batch generalizing jobs with
  | nil => rfl
  | cons task rest ih =>
      have hrow := hrows task List.mem_cons_self
      have hlater : ∀ other ∈ rest, rowViolation (other.row queue) = none :=
        fun other hother => hrows other (List.mem_cons_of_mem _ hother)
      have hfresh := hids.fresh task List.mem_cons_self
      have hput := ih (hids.put queue) hlater
      rw [storedKeys_put hfresh] at hput
      cases hkey : task.idempotencyKey with
      | none =>
          rw [hkey, Option.toList_none, List.append_nil] at hput
          simp [insertedRows, hrow, hkey, hfresh, hput, landed, bind,
            Except.bind, pure, Except.pure]
      | some key =>
          have hstored : (jobs.rows.any fun row => row.jobType = queue &&
              row.idempotencyKey = some key) = true ↔
              key ∈ storedKeys queue jobs := by
            rw [mem_storedKeys, List.any_eq_true]
            simp
          by_cases htaken : key ∈ storedKeys queue jobs
          · have hrest := ih hids.rest hlater
            simp only [insertedRows, hrow, hkey, Option.isSome_some,
              Bool.true_and, hstored.mpr htaken, ↓reduceIte, hrest, landed,
              htaken]
          · have hnone := Bool.eq_false_iff.mpr fun hany =>
              htaken (hstored.mp hany)
            have hcongr : landed (storedKeys queue jobs ++ [key]) rest =
                landed (key :: storedKeys queue jobs) rest :=
              landed_congr (by simp [or_comm]) rest
            rw [hkey, Option.toList_some, hcongr] at hput
            simp [insertedRows, hrow, hkey, hnone, hfresh, hput, landed,
              htaken, bind, Except.bind, pure, Except.pure]

/-- A batch with an unacceptable row inserts nothing. -/
theorem insertedRows_refused {queue : String} {jobs : JobTable}
    {batch : List NewJob} {task : NewJob} (htask : task ∈ batch)
    (hbad : rowViolation (task.row queue) ≠ none) :
    ∃ fault, insertedRows queue jobs batch = .error fault := by
  induction batch generalizing jobs with
  | nil => cases htask
  | cons head rest ih =>
      unfold insertedRows
      cases hhead : rowViolation (head.row queue) with
      | some violated => exact ⟨violated.fault, rfl⟩
      | none =>
          have hrest : task ∈ rest := by
            rcases List.mem_cons.mp htask with rfl | hrest
            · exact absurd hhead hbad
            · exact hrest
          simp only
          split
          · exact ih hrest
          · split
            · exact ⟨_, rfl⟩
            · have hlater : ∃ fault, insertedRows queue
                  (jobs.put (head.row queue)) rest = .error fault := ih hrest
              obtain ⟨fault, hfault⟩ := hlater
              exact ⟨fault, by simp [hfault, bind, Except.bind]⟩

/-- The effects of an enqueue. -/
def enqueueEffects (queue : String) (batch : List NewJob) : List Effect :=
  batch.map fun task =>
    .job ⟨task.id, .enqueue, none, some (task.row queue)⟩

/-- Enqueued rows are appended in order. -/
theorem apply_enqueueEffects {queue : String} {db : Db} {batch : List NewJob}
    (h : FreshIds db.jobs batch) :
    (db.apply (enqueueEffects queue batch)).jobs.rows =
        db.jobs.rows ++ batch.map (fun task => task.row queue) ∧
      (db.apply (enqueueEffects queue batch)).workers = db.workers := by
  induction batch generalizing db with
  | nil => simp [enqueueEffects, Db.apply]
  | cons task rest ih =>
      let next : Db := { db with jobs := db.jobs.put (task.row queue) }
      have hids : FreshIds next.jobs rest := h.put queue
      have hrest := ih hids
      have hput : (db.jobs.put (task.row queue)).rows =
          db.jobs.rows ++ [task.row queue] :=
        Table.rows_put_of_fresh (h.fresh task List.mem_cons_self)
      have hstep : db.apply (enqueueEffects queue (task :: rest)) =
          next.apply (enqueueEffects queue rest) := rfl
      rw [hstep, hrest.1, hrest.2]
      exact ⟨by simp [next, hput], rfl⟩

theorem exec_insertJobs {queue : String} {db : Db} {batch : List NewJob}
    (hids : FreshIds db.jobs batch)
    (hrows : ∀ task ∈ batch, rowViolation (task.row queue) = none)
    (env : Env) :
    sql.exec (.insertJobs queue batch) env db =
      .ok ((landed (storedKeys queue db.jobs) batch).map
          NewJob.idempotencyKey,
        enqueueEffects queue (landed (storedKeys queue db.jobs) batch)) := by
  have hplan : Stmt.plan env db (.insertJobs queue batch) =
      .ok ((landed (storedKeys queue db.jobs) batch).map
          NewJob.idempotencyKey,
        enqueueEffects queue (landed (storedKeys queue db.jobs) batch)) := by
    simp only [Stmt.plan, insertedRows_eq hids hrows, bind, Except.bind, pure,
      Except.pure, List.map_map]
    rfl
  have hviolation : (enqueueEffects queue
      (landed (storedKeys queue db.jobs) batch)).findSome?
      (effectViolation (db.apply (enqueueEffects queue
        (landed (storedKeys queue db.jobs) batch)))) = none := by
    apply List.findSome?_eq_none_iff.mpr
    intro effect heffect
    obtain ⟨task, htask, rfl⟩ := List.mem_map.mp heffect
    have hrow := hrows task ((landed_sublist _ _).subset htask)
    have howner : ∀ after, ownerRegistered after (task.row queue) = true :=
      fun _ => rfl
    simp [effectViolation, hrow, howner]
  change Stmt.exec _ _ _ = _
  simp only [Stmt.exec, hplan, bind, Except.bind, hviolation, pure,
    Except.pure]

theorem exec_insertJobs_refused {queue : String} {batch : List NewJob}
    {task : NewJob} (htask : task ∈ batch)
    (hbad : rowViolation (task.row queue) ≠ none) (env : Env) (db : Db) :
    ∃ fault, sql.exec (.insertJobs queue batch) env db = .error fault := by
  have hinserted : ∃ fault, insertedRows queue db.jobs batch = .error fault :=
    insertedRows_refused htask hbad
  obtain ⟨fault, hfault⟩ := hinserted
  refine ⟨fault, ?_⟩
  change Stmt.exec _ _ _ = _
  simp [Stmt.exec, Stmt.plan, hfault, bind, Except.bind]

namespace Push

variable {fresh : Nat → Ulid} {binds : JobBatchBinds} {queue : String}
  {tasks : List SubmittedTask}

/-- The rows a batch asks for. -/
def batchJobs (fresh : Nat → Ulid) (tasks : List SubmittedTask) :
    List NewJob :=
  tasks.mapIdx fun i task => task.newJob (task.taskId.getD (fresh i))

theorem timestamptzAccepts_runAt {task : SubmittedTask}
    (hseconds : task.runAt.toNat ≤ 8210266876799) :
    timestamptzAccepts (toTimestamp task.runAt.toNat) = true := by
  have hfloor : timestampFloor ≤ toTimestamp task.runAt.toNat := by
    change (-210866803200 * 1000000 : Int) ≤ (task.runAt.toNat : Int) * 1000000
    omega
  have hceiling : toTimestamp task.runAt.toNat < timestampCeiling := by
    change (task.runAt.toNat : Int) * 1000000 < (9224318016000 * 1000000 : Int)
    omega
  simp [timestamptzAccepts, hfloor, hceiling]

theorem Carries.metadata_accepted (h : Carries json.toText fresh binds tasks) :
    binds.metadata.all textAccepts = true := by
  rw [List.all_eq_true]
  intro text htext
  have hmem : (Except.ok text : Except String String) ∈
      binds.metadata.map Except.ok := List.mem_map_of_mem htext
  rw [h.metadata, List.mem_map] at hmem
  obtain ⟨task, _, htask⟩ := hmem
  exact json.text_accepts htask

/-- The bound texts are read if and only if the queue and the keys are. -/
theorem Carries.textsAccepted_iff (h : Carries json.toText fresh binds tasks)
    (hqueue : binds.jobType = queue) :
    binds.textsAccepted = true ↔ textAccepts queue = true ∧
      ∀ task ∈ tasks, ∀ key, task.idempotencyKey = some key →
        textAccepts key = true := by
  have hids : binds.ids.all textAccepts = true := by
    rw [h.ids, List.all_eq_true]
    intro text htext
    obtain ⟨i, hi, rfl⟩ := List.mem_mapIdx.mp htext
    exact Ulid.textAccepts_toText _
  simp only [JobBatchBinds.textsAccepted, hids, h.metadata_accepted, hqueue,
    h.idempotencyKeys, Bool.and_true, Bool.and_eq_true, List.all_eq_true,
    List.forall_mem_map, Option.all_eq_true]

/-- A task within the caps is proposed as it was submitted, unless its
metadata cannot be read. -/
theorem proposed_iff {task : SubmittedTask} {id : Ulid} {metaJson : String}
    (hseconds : task.runAt.toNat ≤ 8210266876799)
    (htext : json.toText (.obj task.metadata) = .ok metaJson) (job : NewJob) :
    (UnnestedRow.mk (some id.toText) (some task.args) (some task.maxAttempts)
      (some (toTimestamp task.runAt.toNat)) (some task.priority)
      (some metaJson) (some task.idempotencyKey)).proposed json = .ok job ↔
      jsonbAccepts (.obj task.metadata) = true ∧ job = task.newJob id := by
  have hcast := json.toJsonb_toText htext
  by_cases hread : jsonbAccepts (.obj task.metadata) = true
  · rw [if_pos hread] at hcast
    simp [UnnestedRow.proposed, timestamptzAccepts_runAt hseconds, hcast,
      hread, SubmittedTask.newJob, eq_comm]
  · rw [if_neg hread] at hcast
    simp [UnnestedRow.proposed, timestamptzAccepts_runAt hseconds, hcast,
      hread]

theorem Carries.unnest_proposed_iff (h : Carries json.toText fresh binds tasks)
    (hseconds : ∀ task ∈ tasks, task.runAt.toNat ≤ 8210266876799)
    (jobs : List NewJob) :
    List.Forall₂ (fun row job => row.proposed json = .ok job) binds.unnest
        jobs ↔
      (∀ task ∈ tasks, jsonbAccepts (.obj task.metadata) = true) ∧
        jobs = batchJobs fresh tasks := by
  have hlength : binds.unnest.length = tasks.length := by
    simp [JobBatchBinds.unnest, h.unnestLength]
  have hrow : ∀ i (hi : i < binds.unnest.length) (hi' : i < tasks.length) job,
      (binds.unnest.get ⟨i, hi⟩).proposed json = .ok job ↔
        jsonbAccepts (.obj tasks[i].metadata) = true ∧
          job = tasks[i].newJob (tasks[i].taskId.getD (fresh i)) := by
    intro i hi hi' job
    obtain ⟨metaJson, htext, hget⟩ :=
      h.unnest_get (List.getElem?_eq_getElem hi')
    obtain ⟨_, hat⟩ := List.getElem?_eq_some_iff.mp hget
    rw [List.get_eq_getElem, hat]
    exact proposed_iff (hseconds _ (List.getElem_mem hi')) htext job
  rw [List.forall₂_iff_get]
  constructor
  · rintro ⟨hsame, hall⟩
    have hjobs : jobs.length = tasks.length := hsame.symm.trans hlength
    refine ⟨?_, ?_⟩
    · intro task htask
      obtain ⟨i, hi, rfl⟩ := List.mem_iff_getElem.mp htask
      have hunnest : i < binds.unnest.length := hlength.symm ▸ hi
      have hjob : i < jobs.length := hjobs.symm ▸ hi
      exact ((hrow i hunnest hi _).mp (hall i hunnest hjob)).1
    · apply List.ext_getElem (by simp [batchJobs, hjobs])
      intro i hi _
      have htask : i < tasks.length := hjobs ▸ hi
      have hunnest : i < binds.unnest.length := hlength.symm ▸ htask
      have hjob := ((hrow i hunnest htask _).mp (hall i hunnest hi)).2
      rw [List.get_eq_getElem] at hjob
      rw [hjob]
      simp [batchJobs]
  · rintro ⟨hmeta, rfl⟩
    refine ⟨by simp [hlength, batchJobs], ?_⟩
    intro i hi hi'
    have htask : i < tasks.length := hlength ▸ hi
    refine (hrow i hi htask _).mpr ⟨hmeta _ (List.getElem_mem htask), ?_⟩
    simp [batchJobs]

/-- What the server makes of a prepared batch. -/
theorem Carries.newJobs_iff (h : Carries json.toText fresh binds tasks)
    (hqueue : binds.jobType = queue)
    (hseconds : ∀ task ∈ tasks, task.runAt.toNat ≤ 8210266876799)
    (jobs : List NewJob) :
    binds.newJobs json = .ok jobs ↔ textAccepts queue = true ∧
      (∀ task ∈ tasks, task.Readable) ∧ jobs = batchJobs fresh tasks := by
  have hrows : proposedRows json binds.unnest = .ok jobs ↔
      (∀ task ∈ tasks, jsonbAccepts (.obj task.metadata) = true) ∧
        jobs = batchJobs fresh tasks := by
    rw [proposedRows_iff]
    exact h.unnest_proposed_iff hseconds jobs
  unfold JobBatchBinds.newJobs
  by_cases htexts : binds.textsAccepted = true
  · rw [if_pos htexts, hrows]
    obtain ⟨hname, hkeys⟩ := (h.textsAccepted_iff hqueue).mp htexts
    constructor
    · rintro ⟨hmeta, hjobs⟩
      exact ⟨hname, fun task htask => ⟨hmeta task htask, hkeys task htask⟩,
        hjobs⟩
    · rintro ⟨_, hread, hjobs⟩
      exact ⟨fun task htask => (hread task htask).metadata, hjobs⟩
  · rw [if_neg htexts]
    constructor
    · intro herror
      cases herror
    · rintro ⟨hname, hread, _⟩
      exact absurd ((h.textsAccepted_iff hqueue).mpr
        ⟨hname, fun task htask => (hread task htask).idempotencyKey⟩) htexts

/-- The values of a task pass every rule of the columns they are written to. -/
structure WithinColumns (queue : String) (task : SubmittedTask) : Prop where
  queue : textAccepts queue = true
  readable : task.Readable
  maxAttempts : 0 < task.maxAttempts.toInt
  priority : 0 ≤ task.priority.toInt

/-- Of the checks of a row, an enqueued task can fail the two on its budget
and its priority. -/
theorem rowViolation_newJob_iff (queue : String) (task : SubmittedTask)
    (id : Ulid) :
    rowViolation ((task.newJob id).row queue) = none ↔
      0 < task.maxAttempts.toInt ∧ 0 ≤ task.priority.toInt := by
  have hmax := task.maxAttempts.toInt_lt
  have hprio := task.priority.toInt_lt
  have hrange : ¬¬ ((0 : Int) ≤ i32Max ∧ task.maxAttempts.toInt ≤ i32Max ∧
      task.priority.toInt ≤ i32Max) := by
    unfold i32Max
    omega
  simp only [rowViolation, NewJob.row, SubmittedTask.newJob, JobRow.active]
  rw [if_neg hrange]
  by_cases hpositive : 0 < task.maxAttempts.toInt
  · have hle : (0 : Int) ≤ task.maxAttempts.toInt := hpositive.le
    by_cases hpriority : 0 ≤ task.priority.toInt <;>
      simp [hpositive, hle, hpriority]
  · simp [hpositive]

theorem validateTask_seconds {toText : Json → Except String String}
    {task : SubmittedTask} (h : validateTask toText queue task = .ok ()) :
    task.runAt.toNat ≤ 8210266876799 := by
  unfold validateTask at h
  cases hqueue : validateQueue queue with
  | error error => simp [hqueue] at h
  | ok jobType =>
      cases hcolumns : validateColumns toText task with
      | error error => simp [hqueue, hcolumns, Except.map] at h
      | ok validated => exact (validateColumns_ok hcolumns).seconds

theorem prepareBatch_seconds {toText : Json → Except String String}
    {prepared : Option PreparedBatch}
    (h : prepareBatch toText fresh queue tasks = .ok prepared) :
    ∀ task ∈ tasks, task.runAt.toNat ≤ 8210266876799 := by
  have houtcome := prepareBatch_outcome toText fresh queue tasks
  rw [h] at houtcome
  intro task htask
  exact validateTask_seconds (prepareBatch_valid houtcome.symm task htask)

theorem mem_batchJobs {job : NewJob} (h : job ∈ batchJobs fresh tasks) :
    ∃ task ∈ tasks, ∃ id, job = task.newJob id := by
  obtain ⟨i, hi, rfl⟩ := List.mem_mapIdx.mp h
  exact ⟨tasks[i], List.getElem_mem hi, _, rfl⟩

theorem newJob_mem_batchJobs {task : SubmittedTask} (h : task ∈ tasks) :
    ∃ id, task.newJob id ∈ batchJobs fresh tasks := by
  obtain ⟨i, hi, rfl⟩ := List.mem_iff_getElem.mp h
  exact ⟨_, List.mem_mapIdx.mpr ⟨i, hi, rfl⟩⟩

@[simp] theorem length_batchJobs (fresh : Nat → Ulid)
    (tasks : List SubmittedTask) :
    (batchJobs fresh tasks).length = tasks.length := by
  simp [batchJobs]

theorem batchJobs_keys (fresh : Nat → Ulid) (tasks : List SubmittedTask) :
    (batchJobs fresh tasks).map NewJob.idempotencyKey =
      tasks.map SubmittedTask.idempotencyKey := by
  apply List.ext_getElem
  · simp [batchJobs]
  · intro i _ _
    simp [batchJobs, SubmittedTask.newJob]

variable {batch : PreparedBatch} {env : Nat → Env} {db : Db}

/-- What follows the INSERT: a keyed batch that did not land whole is rolled
back. -/
def accountConflicts (batch : PreparedBatch) (inserted : List (Option String)) :
    Tx Unit :=
  if batch.anyIdempotencyKey = true ∧ inserted.length < batch.taskCount then
    .rollback (.idempotencyConflict batch.binds.jobType
      (conflictingKeys (batch.binds.idempotencyKeys.filterMap id) inserted [])
      batch.taskCount)
  else return ()

theorem insertPrepared_eq (json : JsonText) (batch : PreparedBatch) :
    insertPrepared json batch =
      insertJobs json batch.binds >>= accountConflicts batch := by
  unfold insertPrepared
  cases hany : batch.anyIdempotencyKey with
  | true =>
      have hsame : accountConflicts batch = fun inserted =>
          if inserted.length < batch.taskCount then
            .rollback (.idempotencyConflict batch.binds.jobType
              (conflictingKeys (batch.binds.idempotencyKeys.filterMap id)
                inserted []) batch.taskCount)
          else return () := by
        funext inserted
        simp [accountConflicts, hany]
      rw [hsame]
      rfl
  | false =>
      have hsame : accountConflicts batch = fun _ => return () := by
        funext inserted
        simp [accountConflicts, hany]
      rw [hsame]
      rfl

theorem insertPrepared_statement {jobs : List NewJob}
    (hnew : batch.binds.newJobs json = .ok jobs) :
    insertPrepared json batch =
      .statement "inserting jobs" (.insertJobs batch.binds.jobType jobs)
        (accountConflicts batch) := by
  rw [insertPrepared_eq, insertJobs, hnew]
  rfl

/-- A batch that holds a task outside the rules of its columns writes
nothing. -/
theorem insertPrepared_refused {task : SubmittedTask}
    (hbatch : prepareBatch json.toText fresh queue tasks = .ok (some batch))
    (htask : task ∈ tasks) (hbad : ¬ WithinColumns queue task)
    (env : Nat → Env) (db : Db) :
    ∃ fault, (insertPrepared json batch).execute sql env db =
      ⟨db, [], .error (.database "inserting jobs" fault)⟩ := by
  obtain ⟨hcarries, hqueue, _, _⟩ := prepareBatch_some json.toText fresh hbatch
  have hjobs := hcarries.newJobs_iff hqueue (prepareBatch_seconds hbatch)
  cases hnew : batch.binds.newJobs json with
  | error fault =>
      refine ⟨fault, ?_⟩
      rw [insertPrepared_eq, insertJobs, hnew]
      rfl
  | ok jobs =>
      obtain ⟨hname, hread, rfl⟩ := (hjobs jobs).mp hnew
      have hmem : ∃ id, task.newJob id ∈ batchJobs fresh tasks :=
        newJob_mem_batchJobs htask
      obtain ⟨id, hid⟩ := hmem
      have hrow : rowViolation ((task.newJob id).row queue) ≠ none := by
        intro hnone
        obtain ⟨hmax, hprio⟩ := (rowViolation_newJob_iff queue task id).mp hnone
        exact hbad ⟨hname, hread task htask, hmax, hprio⟩
      obtain ⟨fault, hfault⟩ := exec_insertJobs_refused hid hrow (env 0) db
      refine ⟨fault, ?_⟩
      rw [insertPrepared_statement hnew, hqueue]
      exact Program.execute_statement_error hfault

/-- A batch within the rules of its columns lands whole, or is rolled back
with its conflicts. -/
theorem insertPrepared_landed
    (hbatch : prepareBatch json.toText fresh queue tasks = .ok (some batch))
    (hcolumns : ∀ task ∈ tasks, WithinColumns queue task)
    (hids : FreshIds db.jobs (batchJobs fresh tasks)) (env : Nat → Env) :
    (insertPrepared json batch).execute sql env db =
      if (landed (storedKeys queue db.jobs) (batchJobs fresh tasks)).length <
          tasks.length then
        ⟨db, [], .error (.idempotencyConflict queue
          (conflictingKeys (tasks.filterMap SubmittedTask.idempotencyKey)
            ((landed (storedKeys queue db.jobs) (batchJobs fresh tasks)).map
              NewJob.idempotencyKey) []) tasks.length)⟩
      else
        ⟨db.apply (enqueueEffects queue (batchJobs fresh tasks)),
          enqueueEffects queue (batchJobs fresh tasks), .ok ()⟩ := by
  obtain ⟨hcarries, hqueue, hcount, hany⟩ :=
    prepareBatch_some json.toText fresh hbatch
  have hname : textAccepts queue = true := by
    cases tasks with
    | nil => simp [prepareBatch] at hbatch
    | cons task rest => exact (hcolumns task List.mem_cons_self).queue
  have hnew : batch.binds.newJobs json = .ok (batchJobs fresh tasks) :=
    (hcarries.newJobs_iff hqueue (prepareBatch_seconds hbatch) _).mpr
      ⟨hname, fun task htask => (hcolumns task htask).readable, rfl⟩
  have hrows : ∀ job ∈ batchJobs fresh tasks,
      rowViolation (job.row queue) = none := by
    intro job hjob
    obtain ⟨task, htask, id, rfl⟩ := mem_batchJobs hjob
    exact (rowViolation_newJob_iff queue task id).mpr
      ⟨(hcolumns task htask).maxAttempts, (hcolumns task htask).priority⟩
  have hexec := exec_insertJobs hids hrows (env 0)
  have hkeys : batch.binds.idempotencyKeys.filterMap id =
      tasks.filterMap SubmittedTask.idempotencyKey := by
    rw [hcarries.idempotencyKeys, List.filterMap_map]
    rfl
  have htotal : batch.taskCount = tasks.length := by
    rw [hcount, hcarries.lengths.1]
  rw [insertPrepared_statement hnew, hqueue]
  split
  · rename_i hshort
    have hkeyed : batch.anyIdempotencyKey = true := by
      rw [hany, hcarries.idempotencyKeys, List.any_map, List.any_eq_true]
      by_contra hnone
      have hkeyless : ∀ job ∈ batchJobs fresh tasks,
          job.idempotencyKey = none := by
        intro job hjob
        obtain ⟨task, htask, id, rfl⟩ := mem_batchJobs hjob
        by_contra hsome
        exact hnone ⟨task, htask, Option.isSome_iff_ne_none.mpr hsome⟩
      rw [landed_of_keyless hkeyless, length_batchJobs] at hshort
      exact absurd hshort (Nat.lt_irrefl _)
    have haccount : ∀ inserted : List (Option String),
        inserted.length < tasks.length → accountConflicts batch inserted =
          .rollback (.idempotencyConflict queue
            (conflictingKeys (tasks.filterMap SubmittedTask.idempotencyKey)
              inserted []) tasks.length) := by
      intro inserted hinserted
      rw [accountConflicts, htotal, if_pos ⟨hkeyed, hinserted⟩, hqueue, hkeys]
    simp only [Program.execute, Program.runBody, hexec]
    rw [haccount _ (by simpa using hshort)]
    rfl
  · rename_i hwhole
    have hall : landed (storedKeys queue db.jobs) (batchJobs fresh tasks) =
        batchJobs fresh tasks := by
      apply (landed_sublist _ _).eq_of_length_le
      simpa using hwhole
    rw [hall] at hexec
    apply Program.execute_of_runBody
    rw [Program.runBody_statement hexec]
    have haccount : accountConflicts batch
        ((batchJobs fresh tasks).map NewJob.idempotencyKey) = .commit () := by
      simp [accountConflicts, htotal]
    rw [haccount]
    rfl

end Push

end ApalisPostgres
