/-
A submitted task is checked against the caps of the crate when it is buffered
and once more when its batch is prepared.  A prepared batch is column-major:
the INSERT binds one array for each column and the server unnests them side
by side.
-/
import ApalisPostgres.ColumnValues
import ApalisPostgres.Sink
import ApalisPostgres.Ulids

namespace ApalisPostgres

def maxMetadataPayloadLen : Nat := 8 * 1024

def maxQueueNameLen : Nat := 255

def maxIdempotencyKeyLen : Nat := 1024

def maxJobPayloadLen : Nat := 1024 * 1024

/-- `PgTask<CompactType>` as a producer submits it. -/
structure SubmittedTask where
  args : List UInt8
  taskId : Option Ulid
  runAt : UInt64
  maxAttempts : Int32
  priority : Int32
  metadata : List (String × Json)
  idempotencyKey : Option String

/-- `i64::try_from` of an unsigned value. -/
def i64TryFrom (value : UInt64) : Option Int64 :=
  if value ≤ 9223372036854775807 then some value.toInt64 else none

/-- `DateTime::from_timestamp(secs, 0)`: chrono counts the years -262143 to
262142. -/
def fromTimestamp (secs : Int64) : Option Timestamp :=
  if -8334601228800 ≤ secs.toInt ∧ secs.toInt ≤ 8210266876799 then
    some (toTimestamp secs.toInt)
  else none

/-- The derived column values of one task that passed every cap. -/
structure ValidatedTask where
  runAt : Timestamp
  metaJson : String

/-- The arrays `INSERT_JOBS_SQL` binds. -/
structure JobBatchBinds where
  ids : List String
  jobType : String
  jobs : List (List UInt8)
  maxAttempts : List Int32
  runAts : List Timestamp
  priorities : List Int32
  metadata : List String
  idempotencyKeys : List (Option String)

/-- A validated, column-major batch ready to bind. -/
structure PreparedBatch where
  binds : JobBatchBinds
  taskCount : Nat
  anyIdempotencyKey : Bool

/-- One row of the `SELECT` list; `none` is a NULL that pads an array. -/
structure UnnestedRow where
  id : Option String
  job : Option (List UInt8)
  maxAttempts : Option Int32
  runAt : Option Timestamp
  priority : Option Int32
  metadata : Option String
  idempotencyKey : Option (Option String)
deriving DecidableEq

namespace JobBatchBinds

/-- The empty arrays before the loop. -/
def new (jobType : String) : JobBatchBinds := ⟨[], jobType, [], [], [], [], [], []⟩

/-- One turn of the loop: every array grows by the task's own value. -/
def push (binds : JobBatchBinds) (freshId : Ulid) (task : SubmittedTask)
    (validated : ValidatedTask) : JobBatchBinds where
  ids := binds.ids ++ [(task.taskId.getD freshId).toText]
  jobType := binds.jobType
  jobs := binds.jobs ++ [task.args]
  maxAttempts := binds.maxAttempts ++ [task.maxAttempts]
  runAts := binds.runAts ++ [validated.runAt]
  priorities := binds.priorities ++ [task.priority]
  metadata := binds.metadata ++ [validated.metaJson]
  idempotencyKeys := binds.idempotencyKeys ++ [task.idempotencyKey]

/-- The rows a `SELECT` of several `unnest`s returns: as many as the longest
array has values. -/
def unnestLength (binds : JobBatchBinds) : Nat :=
  [binds.ids.length, binds.jobs.length, binds.maxAttempts.length,
    binds.runAts.length, binds.priorities.length, binds.metadata.length,
    binds.idempotencyKeys.length].foldl max 0

/-- The `unnest`s advance together, a shorter array is padded with NULL. -/
def unnest (binds : JobBatchBinds) : List UnnestedRow :=
  (List.range binds.unnestLength).map fun i =>
    ⟨binds.ids[i]?, binds.jobs[i]?, binds.maxAttempts[i]?, binds.runAts[i]?,
      binds.priorities[i]?, binds.metadata[i]?, binds.idempotencyKeys[i]?⟩

end JobBatchBinds

namespace Push

/-- The refusal of a value over its cap. -/
def overCap (what : String) (len cap : Nat) : Error :=
  .invalidArgument (what ++ " is " ++ toString len ++ " bytes, exceeds the " ++
    toString cap ++ "-byte cap")

/-- Check the queue name cap once per batch. -/
def validateQueue (queue : String) : Except Error String :=
  if maxQueueNameLen < queue.utf8ByteSize then
    .error (overCap "queue name" queue.utf8ByteSize maxQueueNameLen)
  else .ok queue

variable (toText : Json → Except String String)

/-- Check every per-task cap and derive the column values that need it. -/
def validateColumns (task : SubmittedTask) : Except Error ValidatedTask :=
  if maxJobPayloadLen < task.args.length then
    .error (overCap "task payload" task.args.length maxJobPayloadLen)
  else
    match i64TryFrom task.runAt with
    | none =>
        .error (.invalidArgument ("run_at " ++ toString task.runAt ++
          " exceeds i64::MAX seconds and cannot be stored"))
    | some runAtSecs =>
        match fromTimestamp runAtSecs with
        | none =>
            .error (.invalidArgument ("run_at " ++ toString task.runAt ++
              " exceeds the supported timestamp range"))
        | some runAt =>
            match toText (.obj task.metadata) with
            | .error err =>
                .error (.invalidArgument ("serializing task metadata: " ++ err))
            | .ok metaJson =>
                if maxMetadataPayloadLen < metaJson.utf8ByteSize then
                  .error (overCap "task metadata" metaJson.utf8ByteSize
                    maxMetadataPayloadLen)
                else
                  match task.idempotencyKey with
                  | none => .ok ⟨runAt, metaJson⟩
                  | some key =>
                      if maxIdempotencyKeyLen < key.utf8ByteSize then
                        .error (overCap "idempotency_key" key.utf8ByteSize
                          maxIdempotencyKeyLen)
                      else .ok ⟨runAt, metaJson⟩

/-- The check of a task before it is buffered. -/
def validateTask (queue : String) (task : SubmittedTask) : Except Error Unit :=
  match validateQueue queue with
  | .error error => .error error
  | .ok _ => (validateColumns toText task).map fun _ => ()

/-- The loop of `prepare_batch`; `fresh n` is the `Ulid` made for position
`n`. -/
def collect (fresh : Nat → Ulid) (binds : JobBatchBinds) :
    List SubmittedTask → Except Error JobBatchBinds
  | [] => .ok binds
  | task :: rest =>
      match validateColumns toText task with
      | .error error => .error error
      | .ok validated =>
          collect fresh (binds.push (fresh binds.ids.length) task validated) rest

/-- Validate caps and collect the batch into column-major bind arrays. -/
def prepareBatch (fresh : Nat → Ulid) (queue : String)
    (tasks : List SubmittedTask) : Except Error (Option PreparedBatch) :=
  if tasks.isEmpty then .ok none
  else
    match validateQueue queue with
    | .error error => .error error
    | .ok jobType =>
        match collect toText fresh (.new jobType) tasks with
        | .error error => .error error
        | .ok binds =>
            .ok (some ⟨binds, binds.ids.length,
              binds.idempotencyKeys.any Option.isSome⟩)

/-- `flush_tasks` over the end of its blocking run, with the batch it
prepares. -/
def flushTasks (fresh : Nat → Ulid) (queue : String)
    (tasks : List SubmittedTask) :
    FlushRun → Except (FlushFailure SubmittedTask) Unit
  | .poolError error => .error (.notStarted tasks error)
  | .issued written =>
      match prepareBatch toText fresh queue tasks with
      | .error error => .error (.rejected error)
      | .ok none => .ok ()
      | .ok (some _) =>
          match written with
          | .error error => .error (.uncertain error)
          | .ok () => .ok ()
  | .executorError taken error =>
      if taken then .error (.uncertain error)
      else .error (.notStarted tasks error)

/-- The conversion of an unsigned second count is exact where it succeeds,
and it succeeds up to the last second chrono counts. -/
theorem fromTimestamp_i64TryFrom (runAt : UInt64) :
    (i64TryFrom runAt).bind fromTimestamp =
      if runAt.toNat ≤ 8210266876799 then some (toTimestamp runAt.toNat)
      else none := by
  have hbound : runAt ≤ 9223372036854775807 ↔
      runAt.toNat ≤ 9223372036854775807 := by
    rw [UInt64.le_iff_toNat_le]
    rfl
  by_cases hfits : runAt.toNat ≤ 9223372036854775807
  · have hsigned : runAt.toInt64.toInt = runAt.toNat := by
      change runAt.toBitVec.toInt = runAt.toBitVec.toNat
      apply BitVec.toInt_eq_toNat_of_lt
      change 2 * runAt.toNat < 2 ^ 64
      omega
    simp only [i64TryFrom, if_pos (hbound.mpr hfits), Option.bind_some,
      fromTimestamp, hsigned]
    by_cases hrange : runAt.toNat ≤ 8210266876799
    · rw [if_pos (by omega), if_pos hrange]
    · rw [if_neg (by omega), if_neg hrange]
  · rw [if_neg (by omega)]
    simp [i64TryFrom, hbound, hfits]

/-- What an accepted task passed, and what was derived from it. -/
structure Validated (task : SubmittedTask) (validated : ValidatedTask) :
    Prop where
  payload : task.args.length ≤ maxJobPayloadLen
  seconds : task.runAt.toNat ≤ 8210266876799
  runAt : validated.runAt = toTimestamp task.runAt.toNat
  metaJson : toText (.obj task.metadata) = .ok validated.metaJson
  metadata : validated.metaJson.utf8ByteSize ≤ maxMetadataPayloadLen
  idempotencyKey : ∀ key, task.idempotencyKey = some key →
    key.utf8ByteSize ≤ maxIdempotencyKeyLen

variable {toText}

theorem validateColumns_ok {task : SubmittedTask} {validated : ValidatedTask}
    (h : validateColumns toText task = .ok validated) :
    Validated toText task validated := by
  unfold validateColumns at h
  split at h
  · cases h
  · rename_i hpayload
    cases hsecs : i64TryFrom task.runAt with
    | none => simp [hsecs] at h
    | some runAtSecs =>
        cases hrun : fromTimestamp runAtSecs with
        | none => simp [hsecs, hrun] at h
        | some runAt =>
            have hexact := fromTimestamp_i64TryFrom task.runAt
            rw [hsecs, Option.bind_some, hrun] at hexact
            have hrange : task.runAt.toNat ≤ 8210266876799 := by
              by_contra hover
              simp [hover] at hexact
            rw [if_pos hrange, Option.some.injEq] at hexact
            cases htext : toText (.obj task.metadata) with
            | error err => simp [hsecs, hrun, htext] at h
            | ok metaJson =>
                simp only [hsecs, hrun, htext] at h
                split at h
                · cases h
                · rename_i hmeta
                  cases hkey : task.idempotencyKey with
                  | none =>
                      simp only [hkey, Except.ok.injEq] at h
                      subst h
                      exact ⟨Nat.le_of_not_lt hpayload, hrange, hexact, htext,
                        Nat.le_of_not_lt hmeta, by simp [hkey]⟩
                  | some key =>
                      simp only [hkey] at h
                      split at h
                      · cases h
                      · rename_i hlen
                        cases h
                        refine ⟨Nat.le_of_not_lt hpayload, hrange, hexact,
                          htext, Nat.le_of_not_lt hmeta, ?_⟩
                        intro other hother
                        rw [hkey, Option.some.injEq] at hother
                        exact hother ▸ Nat.le_of_not_lt hlen

theorem validateColumns_error {task : SubmittedTask} {error : Error}
    (h : validateColumns toText task = .error error) :
    ∃ message, error = .invalidArgument message := by
  unfold validateColumns at h
  split at h
  · cases h
    exact ⟨_, rfl⟩
  · split at h
    · cases h
      exact ⟨_, rfl⟩
    · split at h
      · cases h
        exact ⟨_, rfl⟩
      · split at h
        · cases h
          exact ⟨_, rfl⟩
        · split at h
          · cases h
            exact ⟨_, rfl⟩
          · split at h
            · cases h
            · split at h
              · cases h
                exact ⟨_, rfl⟩
              · cases h

/-- Every refusal of a task names an argument. -/
theorem validateTask_error {queue : String} {task : SubmittedTask}
    {error : Error} (h : validateTask toText queue task = .error error) :
    ∃ message, error = .invalidArgument message := by
  unfold validateTask validateQueue at h
  split at h
  · rename_i hqueue
    split at hqueue
    · cases hqueue
      cases h
      exact ⟨_, rfl⟩
    · cases hqueue
  · cases hcolumns : validateColumns toText task with
    | error refused =>
        rw [hcolumns] at h
        cases h
        exact validateColumns_error hcolumns
    | ok validated =>
        rw [hcolumns] at h
        cases h

/-- The arrays carry the tasks, position by position. -/
structure Carries (toText : Json → Except String String)
    (fresh : Nat → Ulid) (binds : JobBatchBinds)
    (tasks : List SubmittedTask) : Prop where
  ids : binds.ids = tasks.mapIdx fun i task =>
    (task.taskId.getD (fresh i)).toText
  jobs : binds.jobs = tasks.map SubmittedTask.args
  maxAttempts : binds.maxAttempts = tasks.map SubmittedTask.maxAttempts
  runAts : binds.runAts = tasks.map fun task => toTimestamp task.runAt.toNat
  priorities : binds.priorities = tasks.map SubmittedTask.priority
  metadata : binds.metadata.map Except.ok =
    tasks.map fun task => toText (.obj task.metadata)
  idempotencyKeys : binds.idempotencyKeys =
    tasks.map SubmittedTask.idempotencyKey

variable {fresh : Nat → Ulid}

theorem Carries.new (jobType : String) :
    Carries toText fresh (.new jobType) [] :=
  ⟨rfl, rfl, rfl, rfl, rfl, rfl, rfl⟩

/-- One turn of the loop carries one task more. -/
theorem Carries.push {binds : JobBatchBinds} {done : List SubmittedTask}
    (h : Carries toText fresh binds done) {task : SubmittedTask}
    {validated : ValidatedTask} (htask : Validated toText task validated) :
    Carries toText fresh
      (binds.push (fresh binds.ids.length) task validated)
      (done ++ [task]) := by
  have hcount : binds.ids.length = done.length := by simp [h.ids]
  constructor
  · simp [JobBatchBinds.push, h.ids, List.mapIdx_append]
  · simp [JobBatchBinds.push, h.jobs]
  · simp [JobBatchBinds.push, h.maxAttempts]
  · simp [JobBatchBinds.push, h.runAts, htask.runAt]
  · simp [JobBatchBinds.push, h.priorities]
  · simp [JobBatchBinds.push, h.metadata, htask.metaJson]
  · simp [JobBatchBinds.push, h.idempotencyKeys]

theorem collect_ok {tasks done : List SubmittedTask}
    {binds out : JobBatchBinds} (h : Carries toText fresh binds done)
    (hcollect : collect toText fresh binds tasks = .ok out) :
    Carries toText fresh out (done ++ tasks) ∧ out.jobType = binds.jobType := by
  induction tasks generalizing binds done with
  | nil =>
      cases hcollect
      simpa using h
  | cons task rest ih =>
      cases hcolumns : validateColumns toText task with
      | error error => simp [collect, hcolumns] at hcollect
      | ok validated =>
          simp only [collect, hcolumns] at hcollect
          have hnext := ih (h.push (validateColumns_ok hcolumns)) hcollect
          simpa [JobBatchBinds.push] using hnext

variable (toText fresh)

/-- The loop stops at the first task the caps refuse, with its error. -/
theorem collect_outcome {queue jobType : String}
    (hqueue : validateQueue queue = .ok jobType)
    (tasks : List SubmittedTask) (binds : JobBatchBinds) :
    (collect toText fresh binds tasks).map (fun _ => ()) =
      ApalisPostgres.prepareBatch (validateTask toText queue) tasks := by
  induction tasks generalizing binds with
  | nil => rfl
  | cons task rest ih =>
      cases hcolumns : validateColumns toText task with
      | error error =>
          simp [collect, ApalisPostgres.prepareBatch, validateTask, hqueue,
            hcolumns, Except.map]
      | ok validated =>
          have hrest := ih (binds.push (fresh binds.ids.length) task validated)
          simp only [collect, hcolumns, ApalisPostgres.prepareBatch,
            validateTask, hqueue, Except.map]
          exact hrest

/-- Preparing a batch and checking its tasks one by one fail together, with
the same error. -/
theorem prepareBatch_outcome (queue : String) (tasks : List SubmittedTask) :
    (prepareBatch toText fresh queue tasks).map (fun _ => ()) =
      ApalisPostgres.prepareBatch (validateTask toText queue) tasks := by
  cases tasks with
  | nil => rfl
  | cons task rest =>
      cases hqueue : validateQueue queue with
      | error error =>
          simp [prepareBatch, ApalisPostgres.prepareBatch, validateTask,
            hqueue, Except.map]
      | ok jobType =>
          have hloop := collect_outcome toText fresh hqueue (task :: rest)
            (.new jobType)
          rw [← hloop]
          simp only [prepareBatch, List.isEmpty_cons, Bool.false_eq_true,
            ↓reduceIte, hqueue]
          cases collect toText fresh (.new jobType) (task :: rest) <;> rfl

theorem prepareBatch_eq_none_iff (queue : String)
    (tasks : List SubmittedTask) :
    prepareBatch toText fresh queue tasks = .ok none ↔ tasks = [] := by
  cases tasks with
  | nil => simp [prepareBatch]
  | cons task rest =>
      simp only [prepareBatch, List.isEmpty_cons, Bool.false_eq_true,
        ↓reduceIte, reduceCtorEq, iff_false]
      cases validateQueue queue with
      | error error => simp
      | ok jobType =>
          cases hcollect : collect toText fresh (.new jobType) (task :: rest) <;>
            simp [hcollect]

/-- The flush of the sink is the flush over the prepared batch. -/
theorem flushTasks_eq (queue : String) (tasks : List SubmittedTask)
    (run : FlushRun) :
    flushTasks toText fresh queue tasks run =
      ApalisPostgres.flushTasks (validateTask toText queue) tasks run := by
  cases run with
  | poolError error => rfl
  | executorError taken error => rfl
  | issued written =>
      have houtcome := prepareBatch_outcome toText fresh queue tasks
      cases tasks with
      | nil => rfl
      | cons task rest =>
          simp only [flushTasks, ApalisPostgres.flushTasks, ← houtcome,
            List.isEmpty_cons, Bool.false_eq_true, ↓reduceIte]
          cases hbatch : prepareBatch toText fresh queue (task :: rest) with
          | error error => rfl
          | ok batch =>
              cases batch with
              | none =>
                  rw [prepareBatch_eq_none_iff] at hbatch
                  cases hbatch
              | some batch => cases written <;> rfl

theorem prepareBatch_some {queue : String} {tasks : List SubmittedTask}
    {batch : PreparedBatch}
    (h : prepareBatch toText fresh queue tasks = .ok (some batch)) :
    Carries toText fresh batch.binds tasks ∧ batch.binds.jobType = queue ∧
      batch.taskCount = batch.binds.ids.length ∧
      batch.anyIdempotencyKey =
        batch.binds.idempotencyKeys.any Option.isSome := by
  unfold prepareBatch at h
  split at h
  · cases h
  · cases hqueue : validateQueue queue with
    | error error => simp [hqueue] at h
    | ok jobType =>
        have hname : jobType = queue := by
          unfold validateQueue at hqueue
          split at hqueue <;> simp_all
        cases hcollect : collect toText fresh (.new jobType) tasks with
        | error error => simp [hqueue, hcollect] at h
        | ok binds =>
            simp only [hqueue, hcollect, Except.ok.injEq,
              Option.some.injEq] at h
            subst h
            obtain ⟨hcarries, htype⟩ := collect_ok (Carries.new jobType) hcollect
            exact ⟨by simpa using hcarries, htype.trans hname, rfl, rfl⟩

/-- What a prepared batch binds: arrays of one length, in which position `i`
is the task submitted there. -/
structure Aligned (queue : String) (tasks : List SubmittedTask)
    (batch : PreparedBatch) : Prop where
  jobType : batch.binds.jobType = queue
  carries : Carries toText fresh batch.binds tasks
  lengths : ∀ length ∈ [batch.binds.ids.length, batch.binds.jobs.length,
    batch.binds.maxAttempts.length, batch.binds.runAts.length,
    batch.binds.priorities.length, batch.binds.metadata.length,
    batch.binds.idempotencyKeys.length, batch.taskCount],
    length = tasks.length
  rows : batch.binds.unnest.length = tasks.length
  row : ∀ (i : Nat) (task : SubmittedTask), tasks[i]? = some task →
    ∃ metaJson, toText (.obj task.metadata) = .ok metaJson ∧
    batch.binds.unnest[i]? = some ⟨some (task.taskId.getD (fresh i)).toText,
      some task.args, some task.maxAttempts,
      some (toTimestamp task.runAt.toNat), some task.priority, some metaJson,
      some task.idempotencyKey⟩
  anyIdempotencyKey : batch.anyIdempotencyKey = true ↔
    ∃ task ∈ tasks, task.idempotencyKey.isSome = true

variable {toText fresh}

theorem Carries.lengths {binds : JobBatchBinds} {tasks : List SubmittedTask}
    (h : Carries toText fresh binds tasks) :
    binds.ids.length = tasks.length ∧ binds.jobs.length = tasks.length ∧
      binds.maxAttempts.length = tasks.length ∧
      binds.runAts.length = tasks.length ∧
      binds.priorities.length = tasks.length ∧
      binds.metadata.length = tasks.length ∧
      binds.idempotencyKeys.length = tasks.length := by
  have hmeta := congrArg List.length h.metadata
  simp only [List.length_map] at hmeta
  refine ⟨by simp [h.ids], by simp [h.jobs], by simp [h.maxAttempts],
    by simp [h.runAts], by simp [h.priorities], hmeta,
    by simp [h.idempotencyKeys]⟩

theorem Carries.unnestLength {binds : JobBatchBinds}
    {tasks : List SubmittedTask} (h : Carries toText fresh binds tasks) :
    binds.unnestLength = tasks.length := by
  obtain ⟨hids, hjobs, hmax, hrun, hprio, hmeta, hkeys⟩ := h.lengths
  simp [JobBatchBinds.unnestLength, hids, hjobs, hmax, hrun, hprio, hmeta,
    hkeys]

/-- The server reads the tasks back, one row for each. -/
theorem Carries.unnest_get {binds : JobBatchBinds}
    {tasks : List SubmittedTask} (h : Carries toText fresh binds tasks)
    {i : Nat} {task : SubmittedTask} (htask : tasks[i]? = some task) :
    ∃ metaJson, toText (.obj task.metadata) = .ok metaJson ∧
      binds.unnest[i]? = some ⟨some (task.taskId.getD (fresh i)).toText,
        some task.args, some task.maxAttempts,
        some (toTimestamp task.runAt.toNat), some task.priority,
        some metaJson, some task.idempotencyKey⟩ := by
  obtain ⟨hbound, hat⟩ := List.getElem?_eq_some_iff.mp htask
  have hmeta := congrArg (fun texts => texts[i]?) h.metadata
  simp only [List.getElem?_map, htask, Option.map_some,
    Option.map_eq_some_iff] at hmeta
  obtain ⟨metaJson, hget, htext⟩ := hmeta
  refine ⟨metaJson, htext.symm, ?_⟩
  simp [JobBatchBinds.unnest, h.unnestLength, hbound, h.ids, h.jobs,
    h.maxAttempts, h.runAts, h.priorities, h.idempotencyKeys, hget, hat]

theorem prepareBatch_aligned {queue : String} {tasks : List SubmittedTask}
    {batch : PreparedBatch}
    (h : prepareBatch toText fresh queue tasks = .ok (some batch)) :
    Aligned toText fresh queue tasks batch := by
  obtain ⟨hcarries, htype, hcount, hany⟩ := prepareBatch_some toText fresh h
  obtain ⟨hids, hjobs, hmax, hrun, hprio, hmeta, hkeys⟩ := hcarries.lengths
  refine ⟨htype, hcarries, ?_, ?_, fun i task => hcarries.unnest_get, ?_⟩
  · simp [hids, hjobs, hmax, hrun, hprio, hmeta, hkeys, hcount]
  · simp [JobBatchBinds.unnest, hcarries.unnestLength]
  · simp [hany, hcarries.idempotencyKeys]

/-- A batch fails exactly when one of its tasks is refused on its own. -/
theorem prepareBatch_error_iff (queue : String) (tasks : List SubmittedTask) :
    (∃ error, prepareBatch toText fresh queue tasks = .error error) ↔
      ∃ task ∈ tasks, ∃ error, validateTask toText queue task = .error error := by
  have houtcome := prepareBatch_outcome toText fresh queue tasks
  constructor
  · rintro ⟨error, herror⟩
    by_contra hnone
    push Not at hnone
    have hvalid : ∀ task ∈ tasks, validateTask toText queue task = .ok () := by
      intro task htask
      cases htaskResult : validateTask toText queue task with
      | error refused => exact absurd htaskResult (hnone task htask refused)
      | ok value => rfl
    rw [herror, prepareBatch_ok hvalid] at houtcome
    cases houtcome
  · rintro ⟨task, htask, error, herror⟩
    cases hbatch : prepareBatch toText fresh queue tasks with
    | error refused => exact ⟨refused, rfl⟩
    | ok batch =>
        rw [hbatch] at houtcome
        have hvalid := prepareBatch_valid houtcome.symm task htask
        rw [herror] at hvalid
        cases hvalid

theorem tryPush_valid {queue : String} {sink : PgSink SubmittedTask}
    {task : SubmittedTask}
    (h : (sink.tryPush (validateTask toText queue) task).2 = .ok ()) :
    validateTask toText queue task = .ok () := by
  unfold PgSink.tryPush at h
  split at h
  · cases h
  · split at h
    · cases h
    · cases htask : validateTask toText queue task with
      | error error => simp [htask] at h
      | ok value => rfl

theorem flushTasks_not_rejected {queue : String} {tasks : List SubmittedTask}
    (h : ∀ task ∈ tasks, validateTask toText queue task = .ok ())
    (run : FlushRun) (error : Error) :
    flushTasks toText fresh queue tasks run ≠ .error (.rejected error) := by
  rw [flushTasks_eq]
  rcases flushTasks_cases h run with hdone | ⟨other, hback⟩ | ⟨other, hlost⟩
  · simp [hdone]
  · simp [hback]
  · simp [hlost]

/-- Over every configuration and task list: a batch is prepared unless one of
its tasks is refused on its own; position `i` of every bound array is task
`i`; a batch of buffered tasks is never rejected by its flush; and no second
count wraps. -/
theorem prepared_batch_agrees (toText : Json → Except String String)
    (fresh : Nat → Ulid) (queue : String) (tasks : List SubmittedTask) :
    ((∃ error, prepareBatch toText fresh queue tasks = .error error) ↔
      ∃ task ∈ tasks, ∃ error,
        validateTask toText queue task = .error error) ∧
    (prepareBatch toText fresh queue tasks = .ok none ↔ tasks = []) ∧
    (∀ batch, prepareBatch toText fresh queue tasks = .ok (some batch) →
      Aligned toText fresh queue tasks batch) ∧
    ((∀ task ∈ tasks, ∃ sink : PgSink SubmittedTask,
        (sink.tryPush (validateTask toText queue) task).2 = .ok ()) →
      ∀ run error, flushTasks toText fresh queue tasks run ≠
        .error (.rejected error)) ∧
    (∀ runAt : UInt64, (i64TryFrom runAt).bind fromTimestamp =
      if runAt.toNat ≤ 8210266876799 then some (toTimestamp runAt.toNat)
      else none) := by
  refine ⟨prepareBatch_error_iff queue tasks,
    prepareBatch_eq_none_iff toText fresh queue tasks,
    fun batch => prepareBatch_aligned, ?_, fromTimestamp_i64TryFrom⟩
  intro haccepted
  apply flushTasks_not_rejected
  intro task htask
  obtain ⟨sink, hpush⟩ := haccepted task htask
  exact tryPush_valid hpush

/-- A keyed task with its own id and a plain one: both are buffered, and the
second takes the fresh id of its position. -/
theorem prepared_batch_agrees_two_tasks :
    let toText : Json → Except String String := fun _ => .ok "\x7b\x7d"
    let fresh : Nat → Ulid := fun i => ⟨i⟩
    let keyed : SubmittedTask := ⟨[1], some ⟨900⟩, 60, 3, 7, [], some "key"⟩
    let plain : SubmittedTask := ⟨[2], none, 8210266876799, 25, 0, [], none⟩
    (∀ batch, prepareBatch toText fresh "queue" [keyed, plain] =
        .ok (some batch) → Aligned toText fresh "queue" [keyed, plain] batch) ∧
    (∃ batch, prepareBatch toText fresh "queue" [keyed, plain] =
        .ok (some batch) ∧ batch.binds.ids =
          ["000000000000000000000000W4", "00000000000000000000000001"] ∧
        batch.anyIdempotencyKey = true) ∧
    ∀ run error, flushTasks toText fresh "queue" [keyed, plain] run ≠
      .error (.rejected error) := by
  intro toText fresh keyed plain
  obtain ⟨_, _, haligned, hflush, _⟩ :=
    prepared_batch_agrees toText fresh "queue" [keyed, plain]
  refine ⟨haligned, ⟨_, rfl, by decide +kernel, rfl⟩, hflush ?_⟩
  intro task htask
  refine ⟨.new 2, ?_⟩
  rcases List.mem_pair.mp htask with rfl | rfl <;> rfl

end Push

end ApalisPostgres
