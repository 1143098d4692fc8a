/-
The task parts a claim returns, the claim record they carry, and how an
acknowledgement is computed from them before any statement is issued.
-/
import ApalisPostgres.Statements

namespace ApalisPostgres

/-- The persisted history returned by one SQL claim. -/
structure ClaimAttempt where
  taskId : Option String
  lockAt : Option Int
  completed : Nat
deriving Repr, DecidableEq

/-- The columns of the row that travel with a task. -/
structure PgContext where
  maxAttempts : Int
  lockAt : Option Int
  lockBy : Option String
  queue : Option String
deriving Repr, DecidableEq

/-- `Parts<PgContext, Ulid>`; `claim` is the record under `parts.data`. -/
structure Parts where
  taskId : Option String
  ctx : PgContext
  attempt : Nat
  claim : Option ClaimAttempt
deriving Repr, DecidableEq

/-- `PgTask<CompactType>`. -/
structure Task where
  args : List UInt8
  parts : Parts
deriving Repr, DecidableEq

def recordClaim (parts : Parts) : Parts :=
  { parts with claim := some ⟨parts.taskId, parts.ctx.lockAt, parts.attempt⟩ }

/-- What an accepted row hands to its task.  Negative counters, which the
schema refuses, are read as zero. -/
structure Task.Copies (task : Task) (row : JobRow) : Prop where
  args : task.args = row.job
  taskId : task.parts.taskId = some row.id
  maxAttempts : task.parts.ctx.maxAttempts = max row.maxAttempts 0
  lockAt : task.parts.ctx.lockAt = row.lockAt.map unixSeconds
  lockBy : task.parts.ctx.lockBy = row.lockBy
  queue : task.parts.ctx.queue = some row.jobType
  attempt : task.parts.attempt = row.attempts.toNat

/-- `TaskRow::try_into_task_compact` of the SQL companion crate; which rows it
refuses is its own business. -/
structure RowReader where
  tryIntoTaskCompact : JobRow → Except String Task

/-- The accepted rows are copied, under the ULID their id text spells.
`spelled` writes that ULID back as a text; a text that spells none is
refused. -/
def RowReader.ReadsIds (reader : RowReader)
    (spelled : String → Option String) : Prop :=
  ∀ {row : JobRow} {task : Task}, reader.tryIntoTaskCompact row = .ok task →
    ∃ id, spelled row.id = some id ∧ task.Copies { row with id := id }

/-- A reader that copies the id as it stands.  The ids the crate writes are
texts of ULIDs, which spell themselves. -/
structure TaskConversion extends RowReader where
  copies : ∀ {row task}, tryIntoTaskCompact row = .ok task → task.Copies row

instance : Coe TaskConversion RowReader := ⟨TaskConversion.toRowReader⟩

/-- The conversion that refuses no row. -/
def TaskConversion.copying : TaskConversion where
  tryIntoTaskCompact row := .ok
    ⟨row.job, some row.id, ⟨max row.maxAttempts 0, row.lockAt.map unixSeconds,
      row.lockBy, some row.jobType⟩, row.attempts.toNat, none⟩
  copies := by
    intro row task h
    cases h
    exact ⟨rfl, rfl, rfl, rfl, rfl, rfl, rfl⟩

variable (rows : RowReader)

def taskRow (row : JobRow) : Except Error Task :=
  match rows.tryIntoTaskCompact row with
  | .ok task => .ok task
  | .error message => .error (.row message)

/-- Record acknowledgement evidence only for rows returned by a claim. -/
def claimedTaskRow (row : JobRow) : Except Error Task :=
  match taskRow rows row with
  | .ok task => .ok { task with parts := recordClaim task.parts }
  | .error error => .error error

/-- What a claimed row's task carries: the row's columns and its epoch. -/
structure Task.Claimed (task : Task) (row : JobRow) : Prop where
  copies : task.Copies row
  claim : task.parts.claim =
    some ⟨some row.id, row.lockAt.map unixSeconds, row.attempts.toNat⟩

variable {rows} in
/-- The record of a claimed task names the ULID its row spells. -/
theorem claimedTaskRow_reads {spelled : String → Option String}
    (hreads : rows.ReadsIds spelled) {row : JobRow} {task : Task}
    (h : claimedTaskRow rows row = .ok task) :
    ∃ id, spelled row.id = some id ∧ task.Claimed { row with id := id } := by
  unfold claimedTaskRow taskRow at h
  cases hconvert : rows.tryIntoTaskCompact row with
  | error message => simp [hconvert] at h
  | ok converted =>
      obtain ⟨id, hspelled, hcopies⟩ := hreads hconvert
      simp only [hconvert, Except.ok.injEq] at h
      subst h
      refine ⟨id, hspelled, ⟨hcopies.args, hcopies.taskId,
        hcopies.maxAttempts, hcopies.lockAt, hcopies.lockBy, hcopies.queue,
        hcopies.attempt⟩, ?_⟩
      simp [recordClaim, hcopies.taskId, hcopies.lockAt, hcopies.attempt]

theorem TaskConversion.readsIds (rows : TaskConversion) :
    rows.toRowReader.ReadsIds some :=
  fun {row _} htask => ⟨row.id, rfl, rows.copies htask⟩

theorem claimedTaskRow_ok {rows : TaskConversion} {row : JobRow} {task : Task}
    (h : claimedTaskRow rows row = .ok task) : task.Claimed row := by
  obtain ⟨id, hid, hclaimed⟩ := claimedTaskRow_reads rows.readsIds h
  obtain rfl := Option.some.inj hid
  exact hclaimed

/-- The result a handler hands to the acknowledger: the serialized value, the
refusal to serialize it, or the displayed error. -/
inductive HandlerResult where
  | ok (value : Except String Json)
  | err (message : String)

def HandlerResult.isOk : HandlerResult → Bool
  | .ok _ => true
  | .err _ => false

def buildAckResponse : HandlerResult → Except Error (Option Json)
  | .ok (.ok value) => .ok (some (okResult value))
  | .ok (.error message) => .error (.json message)
  | .err message => .ok (some (errResult (truncateErrorPayload message)))

def usizeMax : Nat := 2 ^ 64 - 1

/-- `acknowledgement_attempt`: the count including the completed execution. -/
def acknowledgementAttempt (parts : Parts) : Except Error Nat :=
  match parts.claim with
  | none => .ok parts.attempt
  | some claim => do
      let taskId ← parts.taskId.elim (.error (.missingField "task_id")) .ok
      let workerId ← parts.ctx.lockBy.elim (.error (.missingField "lock_by")) .ok
      let queue ← parts.ctx.queue.elim (.error (.missingField "queue")) .ok
      let lockAt ← parts.ctx.lockAt.elim (.error (.missingField "lock_at")) .ok
      if claim.taskId ≠ some taskId ∨ claim.lockAt ≠ some lockAt then
        .error (.staleAcknowledgement taskId queue workerId)
      else if claim.completed + 1 ≤ usizeMax then .ok (claim.completed + 1)
      else .error (.invalidArgument
        "task attempt counter cannot be incremented")

/-- The persisted status of an execution result. -/
def calculateStatus (maxAttempts : Int) (attempts : Nat)
    (res : HandlerResult) : Status :=
  if res.isOk then .done
  else if 0 ≤ maxAttempts ∧ (attempts : Int) < maxAttempts then .failed
  else .killed

/-- `i32::saturating_sub(1)` of a count that fits the column. -/
def startedAttempts (attempts : Int) : Int := max (attempts - 1) (-i32Max - 1)

/-- The update `PgAck::ack` issues for a claim that was neither refused nor
acknowledged before, with the errors in the order the fields are read. -/
def ackUpdate (leaseToken : Option String) (res : HandlerResult)
    (parts : Parts) : Except Error AckTaskUpdate := do
  let attempts ← acknowledgementAttempt parts
  if i32Max < (attempts : Int) then
    .error (.invalidArgument s!"task attempt counter {attempts} exceeds i32::MAX and cannot be stored")
  else do
    let taskId ← parts.taskId.elim (.error (.missingField "task_id")) .ok
    let result ← buildAckResponse res
    let workerId ← parts.ctx.lockBy.elim (.error (.missingField "lock_by")) .ok
    let queue ← parts.ctx.queue.elim (.error (.missingField "queue")) .ok
    let lockAt ← parts.ctx.lockAt.elim (.error (.missingField "lock_at")) .ok
    return {
      taskId := taskId
      attempts := attempts
      startedAttempts := startedAttempts attempts
      result := result
      status := calculateStatus parts.ctx.maxAttempts attempts res
      workerId := workerId
      queue := queue
      lockAt := lockAt
      leaseToken := leaseToken }

/-- The timestamp a start is predicated on: the record's, or the context's for
parts without one. -/
def startLockAt (parts : Parts) : Option Int :=
  match parts.claim with
  | some claim => claim.lockAt
  | none => parts.ctx.lockAt

/-- The statement `start_claim` issues for parts that are not refused before:
a record pins its count and accepts a `Running` row only once it `started`;
parts without a record pin no count and start either way. -/
def startClaim (leaseToken : Option String) (workerId : String)
    (started : Bool) (parts : Parts) : Except Error StartClaim := do
  let taskId ← parts.taskId.elim (.error (.missingField "task_id")) .ok
  let queue ← parts.ctx.queue.elim (.error (.missingField "queue")) .ok
  let lockAt ← (startLockAt parts).elim (.error (.missingField "lock_at")) .ok
  match parts.claim with
  | none => return ⟨taskId, queue, workerId, lockAt, none, true, leaseToken⟩
  | some claim =>
      if i32Max < (claim.completed : Int) then
        .error (.invalidArgument
          "task attempt counter does not fit the attempts column")
      else return ⟨taskId, queue, workerId, lockAt, some claim.completed,
        started, leaseToken⟩

/-- What an issued acknowledgement says about its parts.  The predicate
pins one execution less than the count it stores. -/
structure AckTaskUpdate.Acknowledges (update : AckTaskUpdate)
    (leaseToken : Option String) (res : HandlerResult) (parts : Parts) :
    Prop where
  taskId : parts.taskId = some update.taskId
  workerId : parts.ctx.lockBy = some update.workerId
  queue : parts.ctx.queue = some update.queue
  lockAt : parts.ctx.lockAt = some update.lockAt
  leaseToken : update.leaseToken = leaseToken
  attempts : 0 ≤ update.attempts
  startedAttempts : update.startedAttempts = update.attempts - 1
  status : update.status =
    calculateStatus parts.ctx.maxAttempts update.attempts.toNat res
  result : buildAckResponse res = .ok update.result
  attempt : acknowledgementAttempt parts = .ok update.attempts.toNat

theorem elim_missingField_ok {α : Type} {field : Option α} {error : Error}
    {value : α} (h : field.elim (.error error) .ok = Except.ok value) :
    field = some value := by
  cases field with
  | none => simp at h
  | some found => simpa using h

theorem bind_ok {α β : Type} {source : Except Error α}
    {next : α → Except Error β} {result : β}
    (h : (source >>= next) = .ok result) :
    ∃ value, source = .ok value ∧ next value = .ok result := by
  cases source with
  | error error => simp [bind, Except.bind] at h
  | ok value => exact ⟨value, rfl, h⟩

theorem ackUpdate_ok {leaseToken : Option String} {res : HandlerResult}
    {parts : Parts} {update : AckTaskUpdate}
    (h : ackUpdate leaseToken res parts = .ok update) :
    update.Acknowledges leaseToken res parts := by
  unfold ackUpdate at h
  obtain ⟨attempts, hattempts, h⟩ := bind_ok h
  split at h
  · simp at h
  · obtain ⟨taskId, htaskId, h⟩ := bind_ok h
    obtain ⟨result, hresult, h⟩ := bind_ok h
    obtain ⟨workerId, hworkerId, h⟩ := bind_ok h
    obtain ⟨queue, hqueue, h⟩ := bind_ok h
    obtain ⟨lockAt, hlockAt, h⟩ := bind_ok h
    simp only [pure, Except.pure, Except.ok.injEq] at h
    subst h
    exact {
      taskId := elim_missingField_ok htaskId
      workerId := elim_missingField_ok hworkerId
      queue := elim_missingField_ok hqueue
      lockAt := elim_missingField_ok hlockAt
      leaseToken := rfl
      attempts := Int.natCast_nonneg attempts
      startedAttempts := by
        simp only [ApalisPostgres.startedAttempts, i32Max]
        omega
      status := by simp
      result := hresult
      attempt := by simpa using hattempts }

/-- What an issued start says about its parts. -/
structure StartClaim.Starts (claim : StartClaim) (started : Bool)
    (parts : Parts) : Prop where
  taskId : parts.taskId = some claim.taskId
  queue : parts.ctx.queue = some claim.queue
  lockAt : startLockAt parts = some claim.lockAt
  bare : parts.claim = none → claim.attempts = none ∧ claim.restart = true
  recorded : ∀ record, parts.claim = some record →
    claim.attempts = some (record.completed : Int) ∧ claim.restart = started

theorem startClaim_ok {leaseToken : Option String} {workerId : String}
    {started : Bool} {parts : Parts} {claim : StartClaim}
    (h : startClaim leaseToken workerId started parts = .ok claim) :
    claim.Starts started parts := by
  unfold startClaim at h
  obtain ⟨taskId, htaskId, h⟩ := bind_ok h
  obtain ⟨queue, hqueue, h⟩ := bind_ok h
  obtain ⟨lockAt, hlockAt, h⟩ := bind_ok h
  cases hclaim : parts.claim with
  | none =>
      simp only [hclaim, pure, Except.pure, Except.ok.injEq] at h
      subst h
      refine ⟨elim_missingField_ok htaskId, elim_missingField_ok hqueue,
        elim_missingField_ok hlockAt, fun _ => ⟨rfl, rfl⟩, ?_⟩
      simp [hclaim]
  | some record =>
      simp only [hclaim] at h
      split at h
      · cases h
      · simp only [pure, Except.pure, Except.ok.injEq] at h
        subst h
        refine ⟨elim_missingField_ok htaskId, elim_missingField_ok hqueue,
          elim_missingField_ok hlockAt, ?_, ?_⟩
        · simp [hclaim]
        · intro other hother
          cases hclaim.symm.trans hother
          exact ⟨rfl, rfl⟩

/-- A start presents the worker it was issued for. -/
theorem startClaim_worker {leaseToken : Option String} {workerId : String}
    {started : Bool} {parts : Parts} {claim : StartClaim}
    (h : startClaim leaseToken workerId started parts = .ok claim) :
    claim.workerId = workerId := by
  unfold startClaim at h
  obtain ⟨taskId, _, h⟩ := bind_ok h
  obtain ⟨queue, _, h⟩ := bind_ok h
  obtain ⟨lockAt, _, h⟩ := bind_ok h
  split at h
  · cases h
    rfl
  · split at h
    · cases h
    · cases h
      rfl

theorem elim_missingField_error {α : Type} {field : Option α} {name : String}
    {error : Error}
    (h : field.elim (.error (.missingField name)) .ok = Except.error error) :
    error = .missingField name := by
  cases field with
  | none => simpa using h.symm
  | some found => simp at h

theorem bind_error {α β : Type} {source : Except Error α}
    {next : α → Except Error β} {error : Error}
    (h : (source >>= next) = .error error) :
    source = .error error ∨
      ∃ value, source = .ok value ∧ next value = .error error := by
  cases source with
  | error other =>
      have hother : other = error := by simpa [bind, Except.bind] using h
      exact Or.inl (by rw [hother])
  | ok value => exact Or.inr ⟨value, rfl, h⟩

/-- No refusal of the parts is an error of the driver. -/
theorem ackUpdate_error_ne_database {leaseToken : Option String}
    {res : HandlerResult} {parts : Parts} {error : Error}
    (h : ackUpdate leaseToken res parts = .error error) :
    ∀ operation fault, error ≠ .database operation fault := by
  have hmissing : ∀ name, error = .missingField name →
      ∀ operation fault, error ≠ .database operation fault := by
    intro name heq operation fault
    simp [heq]
  unfold ackUpdate at h
  rcases bind_error h with hattempt | ⟨attempts, _, h⟩
  · unfold acknowledgementAttempt at hattempt
    split at hattempt
    · cases hattempt
    · rcases bind_error hattempt with h | ⟨_, _, h⟩
      · exact hmissing _ (elim_missingField_error h)
      rcases bind_error h with h | ⟨_, _, h⟩
      · exact hmissing _ (elim_missingField_error h)
      rcases bind_error h with h | ⟨_, _, h⟩
      · exact hmissing _ (elim_missingField_error h)
      rcases bind_error h with h | ⟨_, _, h⟩
      · exact hmissing _ (elim_missingField_error h)
      split at h
      · cases h
        simp
      · split at h
        · cases h
        · cases h
          simp
  · split at h
    · cases h
      simp
    · rcases bind_error h with h | ⟨_, _, h⟩
      · exact hmissing _ (elim_missingField_error h)
      rcases bind_error h with h | ⟨_, _, h⟩
      · unfold buildAckResponse at h
        split at h <;> cases h
        simp
      rcases bind_error h with h | ⟨_, _, h⟩
      · exact hmissing _ (elim_missingField_error h)
      rcases bind_error h with h | ⟨_, _, h⟩
      · exact hmissing _ (elim_missingField_error h)
      rcases bind_error h with h | ⟨_, _, h⟩
      · exact hmissing _ (elim_missingField_error h)
      cases h

end ApalisPostgres
