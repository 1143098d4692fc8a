/-
The data steps of the repair migrations.  Each UPDATE rewrites the rows its
WHERE clause selects and leaves the others; the four migrations bring any
legacy content into the shape the constraints of the schema demand.
-/
import ApalisPostgres.Statements

namespace ApalisPostgres

/-- A row of a legacy `apalis.jobs`, whose `priority` may still be null. -/
structure LegacyJob where
  job : List UInt8
  id : String
  jobType : String
  status : Status
  attempts : Int
  maxAttempts : Int
  runAt : Timestamp
  lastResult : Option Json
  lockAt : Option Timestamp
  lockBy : Option String
  doneAt : Option Timestamp
  priority : Option Int
  metadata : Option Json
  idempotencyKey : Option String

namespace LegacyJob

/-- The row as the hardened schema holds it. -/
def toRow (row : LegacyJob) : JobRow where
  job := row.job
  id := row.id
  jobType := row.jobType
  status := row.status
  attempts := row.attempts
  maxAttempts := row.maxAttempts
  runAt := row.runAt
  lastResult := row.lastResult
  lockAt := row.lockAt
  lockBy := row.lockBy
  doneAt := row.doneAt
  priority := row.priority.getD 0
  metadata := row.metadata
  idempotencyKey := row.idempotencyKey

/-- `status IN ('Queued', 'Running')`. -/
def active (row : LegacyJob) : Bool :=
  row.status = .queued || row.status = .running

/-- A registration of the row's queue is its owner; no registration is the
owner of a row whose `lock_by` is null. -/
def owned (workers : List WorkerRow) (row : LegacyJob) : Bool :=
  workers.any fun worker =>
    some worker.id = row.lockBy && worker.workerType = row.jobType

/-- The SET clause shared by the three ownership repairs: a lost active
execution consumes an attempt, terminal history is never revived. -/
def ownershipLost (now : Timestamp) (row : LegacyJob) : LegacyJob :=
  { row with
    attempts :=
      if row.active then
        if row.attempts < row.maxAttempts then row.attempts + 1
        else row.maxAttempts
      else row.attempts
    status :=
      if row.active then
        if row.attempts < row.maxAttempts - 1 then .pending else .killed
      else row.status
    lastResult :=
      if row.active then
        some (errResult "Worker ownership was lost during schema upgrade")
      else row.lastResult
    doneAt :=
      if row.active then
        if row.attempts < row.maxAttempts - 1 then none else some now
      else row.doneAt
    lockBy := none
    lockAt := none }

/-- The SET clause of the repair of active rows without a claim timestamp. -/
def claimLost (now : Timestamp) (row : LegacyJob) : LegacyJob :=
  { row with
    attempts :=
      if row.attempts < row.maxAttempts then row.attempts + 1
      else row.maxAttempts
    status :=
      if row.attempts < row.maxAttempts - 1 then .pending else .killed
    lastResult :=
      some (errResult "Claim timestamp was missing during schema upgrade")
    doneAt := if row.attempts < row.maxAttempts - 1 then none else some now
    lockBy := none
    lockAt := none }

end LegacyJob

/-- `UPDATE apalis.jobs SET .. WHERE ..` on one row. -/
def updateRow (guard : LegacyJob → Bool) (set : LegacyJob → LegacyJob)
    (row : LegacyJob) : LegacyJob :=
  if guard row then set row else row

variable (workers : List WorkerRow)

/-- The repair of 20260520000000, made again by 20260521000000. -/
def repairOwnership (now : Timestamp) : LegacyJob → LegacyJob :=
  updateRow
    (fun row => (row.active || row.lockBy.isSome) && !row.owned workers)
    (LegacyJob.ownershipLost now)

def truncateLockAt : LegacyJob → LegacyJob :=
  updateRow (fun row => row.lockAt.isSome)
    (fun row => { row with lockAt := row.lockAt.map truncSecond })

def defaultPriority : LegacyJob → LegacyJob :=
  updateRow (fun row => row.priority.isNone)
    (fun row => { row with priority := some 0 })

/-- The repair of 20260912000001. -/
def repairActiveOwner (now : Timestamp) : LegacyJob → LegacyJob :=
  updateRow (fun row => row.active && row.lockBy.isNone)
    (LegacyJob.ownershipLost now)

/-- The two repairs of 20260914000000. -/
def clearPending : LegacyJob → LegacyJob :=
  updateRow
    (fun row => row.status = .pending &&
      (row.lockBy.isSome || row.lockAt.isSome))
    (fun row => { row with lockBy := none, lockAt := none })

def repairClaim (now : Timestamp) : LegacyJob → LegacyJob :=
  updateRow (fun row => row.active && row.lockAt.isNone)
    (LegacyJob.claimLost now)

def repairLegacyOwnership (now : Timestamp) (rows : List LegacyJob) :
    List LegacyJob :=
  rows.map (repairOwnership workers now)

def hardenApalisSql (now : Timestamp) (rows : List LegacyJob) :
    List LegacyJob :=
  ((rows.map (repairOwnership workers now)).map truncateLockAt).map
    defaultPriority

def requireActiveOwner (now : Timestamp) (rows : List LegacyJob) :
    List LegacyJob :=
  rows.map (repairActiveOwner now)

def taskStateShape (now : Timestamp) (rows : List LegacyJob) :
    List LegacyJob :=
  (rows.map clearPending).map (repairClaim now)

/-- The times at which the repairs of the four migrations run. -/
structure MigrationClock where
  ownership : Timestamp
  harden : Timestamp
  owner : Timestamp
  shape : Timestamp

/-- The data steps of the last two migrations. -/
def closeShape (clock : MigrationClock) (rows : List LegacyJob) :
    List LegacyJob :=
  taskStateShape clock.shape (requireActiveOwner clock.owner rows)

/-- The data steps of the four migrations, in order. -/
def migrate (clock : MigrationClock) (rows : List LegacyJob) :
    List LegacyJob :=
  closeShape clock (hardenApalisSql workers clock.harden
    (repairLegacyOwnership workers clock.ownership rows))

namespace LegacyJob

variable {workers} {clock : MigrationClock} {now : Timestamp}
  {row : LegacyJob}

/-- The execution of an active row that the upgrade finds lost: its owner is
missing or foreign, or its claim has no timestamp. -/
def lost (workers : List WorkerRow) (row : LegacyJob) : Bool :=
  row.active && (!row.owned workers || row.lockAt.isNone)

/-- Valid legacy content of a row. -/
structure Legacy (row : LegacyJob) : Prop where
  maxAttempts : 0 < row.maxAttempts
  attempts : 0 ≤ row.attempts
  bounded : row.attempts ≤ row.maxAttempts

/-- `lock_by` is null or names a registration of the queue. -/
def OwnerKey (workers : List WorkerRow) (row : LegacyJob) : Prop :=
  row.lockBy = none ∨ row.owned workers = true

/-- `jobs_active_owner_check`. -/
def ActiveOwnerCheck (row : LegacyJob) : Prop :=
  row.active = false ∨ row.lockBy.isSome = true

/-- `jobs_state_shape_check`. -/
def StateShapeCheck (row : LegacyJob) : Prop :=
  (row.status ≠ .pending ∨ (row.lockBy = none ∧ row.lockAt = none)) ∧
    (row.active = false ∨
      (row.lockBy.isSome = true ∧ row.lockAt.isSome = true))

theorem owned_lockBy (h : row.owned workers = true) :
    row.lockBy.isSome = true := by
  obtain ⟨worker, _, hworker⟩ := List.any_eq_true.mp h
  simp only [Bool.and_eq_true, decide_eq_true_eq] at hworker
  simp [← hworker.1]

theorem ownershipLost_of_idle (h : row.active = false) :
    row.ownershipLost now = { row with lockBy := none, lockAt := none } := by
  simp [ownershipLost, h]

theorem ownershipLost_status (h : row.active = true) :
    (row.ownershipLost now).status =
      if row.attempts < row.maxAttempts - 1 then .pending else .killed := by
  simp [ownershipLost, h]

theorem ownershipLost_inactive (now : Timestamp) (row : LegacyJob) :
    (row.ownershipLost now).active = false := by
  by_cases hactive : row.active = true
  · unfold active
    rw [ownershipLost_status hactive]
    by_cases hleft : row.attempts < row.maxAttempts - 1 <;> simp [hleft]
  · rw [ownershipLost_of_idle (Bool.eq_false_iff.mpr hactive)]
    exact Bool.eq_false_iff.mpr hactive

/-- What the hardening makes of a row whose owner is in order. -/
def normalized (row : LegacyJob) : LegacyJob :=
  { row with
    lockAt := row.lockAt.map truncSecond
    priority := some (row.priority.getD 0) }

@[simp] theorem normalized_active : row.normalized.active = row.active := rfl

@[simp] theorem normalized_owned :
    row.normalized.owned workers = row.owned workers := rfl

theorem defaultPriority_truncateLockAt :
    defaultPriority (truncateLockAt row) = row.normalized := by
  obtain ⟨_, _, _, _, _, _, _, _, lockAt, _, _, priority, _, _⟩ := row
  cases lockAt <;> cases priority <;> rfl

/-- The migrations on one row. -/
def migrated (workers : List WorkerRow) (clock : MigrationClock)
    (row : LegacyJob) : LegacyJob :=
  repairClaim clock.shape (clearPending (repairActiveOwner clock.owner
    (repairOwnership workers clock.harden
      (repairOwnership workers clock.ownership row)).normalized))

/-- A row with an owner of its queue, or without an owner and a claim. -/
def Settled (workers : List WorkerRow) (row : LegacyJob) : Prop :=
  (row.active = true → row.owned workers = true) ∧ row.OwnerKey workers

variable (workers) in
theorem repairOwnership_settled (now : Timestamp) (row : LegacyJob) :
    (repairOwnership workers now row).Settled workers := by
  unfold repairOwnership updateRow
  split
  · refine ⟨?_, Or.inl rfl⟩
    simp [ownershipLost_inactive]
  · rename_i hguard
    simp only [Bool.and_eq_true, Bool.or_eq_true, Bool.not_eq_true',
      not_and, Bool.not_eq_false] at hguard
    refine ⟨fun hactive => hguard (Or.inl hactive), ?_⟩
    cases hlockBy : row.lockBy with
    | none => exact Or.inl hlockBy
    | some worker => exact Or.inr (hguard (Or.inr (by simp [hlockBy])))

theorem Settled.repairOwnership (h : row.Settled workers) :
    repairOwnership workers now row = row := by
  unfold ApalisPostgres.repairOwnership updateRow
  rw [if_neg]
  simp only [Bool.and_eq_true, Bool.or_eq_true, Bool.not_eq_true',
    not_and, Bool.not_eq_false]
  rintro (hactive | hlockBy)
  · exact h.1 hactive
  · rcases h.2 with hnone | howned
    · simp [hnone] at hlockBy
    · exact howned

theorem Settled.repairActiveOwner (h : row.Settled workers) :
    repairActiveOwner now row = row := by
  unfold ApalisPostgres.repairActiveOwner updateRow
  rw [if_neg]
  simp only [Bool.and_eq_true, not_and, Option.isNone_iff_eq_none]
  intro hactive hnone
  have hsome := owned_lockBy (h.1 hactive)
  simp [hnone] at hsome

theorem migrated_eq : row.migrated workers clock =
    repairClaim clock.shape (clearPending
      (repairOwnership workers clock.ownership row).normalized) := by
  have hsettled := repairOwnership_settled workers clock.ownership row
  have hnormal : (ApalisPostgres.repairOwnership workers clock.ownership
      row).normalized.Settled workers := hsettled
  rw [migrated, hsettled.repairOwnership, hnormal.repairActiveOwner]

/-- The three ends of the migrations: an execution is lost, the columns of an
ended claim are cleared, or the row is kept. -/
theorem migrated_cases (workers : List WorkerRow) (clock : MigrationClock)
    (row : LegacyJob) :
    (row.active = true ∧ row.owned workers = false ∧
        row.migrated workers clock =
          (row.ownershipLost clock.ownership).normalized) ∨
      (row.active = true ∧ row.owned workers = true ∧ row.lockAt = none ∧
        row.migrated workers clock =
          row.normalized.claimLost clock.shape) ∨
      (row.active = false ∧ row.migrated workers clock =
        { row.normalized with lockBy := none, lockAt := none }) ∨
      (row.lost workers = false ∧ row.status ≠ .pending ∧
        row.OwnerKey workers ∧
        row.migrated workers clock = row.normalized) := by
  rw [migrated_eq]
  by_cases hactive : row.active = true
  · have hstatus : row.status ≠ .pending := by
      intro hpending
      simp [active, hpending] at hactive
    by_cases howned : row.owned workers = true
    · have hrepair : repairOwnership workers clock.ownership row = row := by
        simp [repairOwnership, updateRow, howned]
      have hclear : clearPending row.normalized = row.normalized := by
        simp [clearPending, updateRow, normalized, hstatus]
      rw [hrepair, hclear]
      cases hlockAt : row.lockAt with
      | none =>
          refine Or.inr (Or.inl ⟨hactive, howned, rfl, ?_⟩)
          have hguard : (row.normalized.active &&
              row.normalized.lockAt.isNone) = true := by
            rw [normalized_active, hactive]
            simp [normalized, hlockAt]
          exact if_pos hguard
      | some claimed =>
          refine Or.inr (Or.inr (Or.inr ⟨?_, hstatus, Or.inr howned, ?_⟩))
          · simp [lost, howned, hlockAt]
          · simp [repairClaim, updateRow, normalized, hlockAt]
    · have hrepair : repairOwnership workers clock.ownership row =
          row.ownershipLost clock.ownership := by
        simp [repairOwnership, updateRow, hactive, howned]
      have hinactive := ownershipLost_inactive clock.ownership row
      rw [hrepair]
      refine Or.inl ⟨hactive, Bool.eq_false_iff.mpr howned, ?_⟩
      have hclear : clearPending (row.ownershipLost clock.ownership).normalized =
          (row.ownershipLost clock.ownership).normalized := by
        simp [clearPending, updateRow, normalized, ownershipLost]
      rw [hclear]
      simp [repairClaim, updateRow, hinactive]
  · have hidle := Bool.eq_false_iff.mpr hactive
    have hclaim : ∀ other : LegacyJob, other.status = row.status →
        repairClaim clock.shape other = other := by
      intro other hstatus
      have hother : other.active = false := by
        unfold active at hidle ⊢
        rw [hstatus]
        exact hidle
      simp [repairClaim, updateRow, hother]
    by_cases hforeign : row.lockBy.isSome = true ∧ row.owned workers = false
    · have hrepair : repairOwnership workers clock.ownership row =
          { row with lockBy := none, lockAt := none } := by
        simp [repairOwnership, updateRow, hforeign,
          ownershipLost_of_idle hidle]
      refine Or.inr (Or.inr (Or.inl ⟨hidle, ?_⟩))
      rw [hrepair]
      have hclear : clearPending
          ({ row with lockBy := none, lockAt := none } :
            LegacyJob).normalized =
          { row.normalized with lockBy := none, lockAt := none } := by
        simp [clearPending, updateRow, normalized]
      rw [hclear]
      exact hclaim _ rfl
    · have howner : row.OwnerKey workers := by
        cases hlockBy : row.lockBy with
        | none => exact Or.inl hlockBy
        | some worker =>
            refine Or.inr (by_contra fun hnot => hforeign ⟨?_, ?_⟩)
            · simp [hlockBy]
            · exact Bool.eq_false_iff.mpr hnot
      have hsettled : row.Settled workers :=
        ⟨fun hyes => absurd hyes hactive, howner⟩
      rw [hsettled.repairOwnership]
      by_cases hpending : row.status = .pending
      · refine Or.inr (Or.inr (Or.inl ⟨hidle, ?_⟩))
        have hclear : clearPending row.normalized =
            { row.normalized with lockBy := none, lockAt := none } := by
          cases hlockBy : row.lockBy <;> cases hlockAt : row.lockAt <;>
            simp [clearPending, updateRow, normalized, hpending, hlockBy,
              hlockAt]
        rw [hclear]
        exact hclaim _ rfl
      · refine Or.inr (Or.inr (Or.inr ⟨?_, hpending, howner, ?_⟩))
        · simp [lost, hidle]
        · have hclear : clearPending row.normalized = row.normalized := by
            simp [clearPending, updateRow, normalized, hpending]
          rw [hclear]
          exact hclaim _ rfl

/-- What the migrations promise of each row. -/
structure Repaired (workers : List WorkerRow) (row after : LegacyJob) :
    Prop where
  ownerKey : after.OwnerKey workers
  activeOwner : after.ActiveOwnerCheck
  stateShape : after.StateShapeCheck
  bounded : after.attempts ≤ row.maxAttempts ∧
    after.maxAttempts = row.maxAttempts
  chargedOnce : row.attempts ≤ after.attempts ∧
    after.attempts ≤ row.attempts + 1
  chargedOnly : after.attempts ≠ row.attempts → row.lost workers = true
  retried : row.lost workers = true →
    ((after.status = .pending ∧ after.doneAt = none) ↔
      row.attempts + 1 < row.maxAttempts)
  exhausted : row.lost workers = true →
    ¬ row.attempts + 1 < row.maxAttempts →
      after.status = .killed ∧ after.doneAt.isSome = true
  recovered : row.lost workers = true → ∃ now,
    let recovered := recoverRow now .takeover row.toRow
    after.attempts = recovered.attempts ∧ after.status = recovered.status ∧
      after.doneAt = recovered.doneAt ∧ after.lockBy = recovered.lockBy ∧
      after.lockAt = recovered.lockAt
  kept : row.lost workers = false →
    after.status = row.status ∧ after.attempts = row.attempts ∧
      after.lastResult = row.lastResult ∧ after.doneAt = row.doneAt
  terminal : row.status = .done ∨ row.status = .killed ∨
      row.status = .failed →
    after.status = row.status ∧ after.attempts = row.attempts ∧
      after.lastResult = row.lastResult ∧ after.doneAt = row.doneAt

theorem lost_active (h : row.lost workers = true) : row.active = true := by
  simp only [lost, Bool.and_eq_true] at h
  exact h.1

/-- A row whose execution was lost, by either repair. -/
theorem repaired_of_lost (now : Timestamp) (hlegacy : row.Legacy)
    {after : LegacyJob} (hlost : row.lost workers = true)
    (hmax : after.maxAttempts = row.maxAttempts)
    (hattempts : after.attempts = if row.attempts < row.maxAttempts then
      row.attempts + 1 else row.maxAttempts)
    (hstatus : after.status =
      if row.attempts < row.maxAttempts - 1 then .pending else .killed)
    (hdoneAt : after.doneAt =
      if row.attempts < row.maxAttempts - 1 then none else some now)
    (hlockBy : after.lockBy = none) (hlockAt : after.lockAt = none) :
    Repaired workers row after := by
  have hbounded := hlegacy.bounded
  have hactive := lost_active hlost
  have hinactive : after.active = false := by
    unfold active
    rw [hstatus]
    split <;> simp
  have hnext : after.attempts = boundedIncrement row.toRow := by
    rw [hattempts]
    simp only [boundedIncrement, toRow]
    split <;> omega
  have hexhausted : row.maxAttempts ≤ boundedIncrement row.toRow ↔
      ¬ row.attempts < row.maxAttempts - 1 := by
    simp only [boundedIncrement, toRow]
    omega
  refine ⟨Or.inl hlockBy, Or.inl hinactive, ⟨Or.inr ⟨hlockBy, hlockAt⟩,
    Or.inl hinactive⟩, ⟨?_, hmax⟩, ?_, fun _ => hlost, fun _ => ?_,
    fun _ => ?_, fun _ => ⟨now, ?_⟩, ?_, ?_⟩
  · rw [hattempts]
    split <;> omega
  · rw [hattempts]
    split <;> omega
  · rw [hstatus, hdoneAt]
    by_cases hleft : row.attempts < row.maxAttempts - 1
    · simp only [if_pos hleft, and_self, true_iff]
      omega
    · simp only [if_neg hleft, reduceCtorEq, and_self, false_iff]
      omega
  · intro hnot
    have hleft : ¬ row.attempts < row.maxAttempts - 1 := by omega
    simp [hstatus, hdoneAt, hleft]
  · have hcharged : nextAttempts .takeover row.toRow =
        boundedIncrement row.toRow := by
      simp [nextAttempts, charged, Recovery.chargesUnstarted]
    simp only [recoverRow, hcharged]
    by_cases hleft : row.attempts < row.maxAttempts - 1
    · have hnot : ¬ row.toRow.maxAttempts ≤ boundedIncrement row.toRow :=
        fun hle => hexhausted.mp hle hleft
      simp [hnext, hstatus, hdoneAt, hlockBy, hlockAt, hleft, hnot]
    · have hyes : row.toRow.maxAttempts ≤ boundedIncrement row.toRow :=
        hexhausted.mpr hleft
      simp [hnext, hstatus, hdoneAt, hlockBy, hlockAt, hleft, hyes]
  · intro hkept
    simp [hlost] at hkept
  · rintro (hdone | hdone | hdone) <;> simp [active, hdone] at hactive

/-- A row that keeps its status and its attempts. -/
theorem repaired_of_kept (hlegacy : row.Legacy) {after : LegacyJob}
    (hlost : row.lost workers = false)
    (hmax : after.maxAttempts = row.maxAttempts)
    (hstatus : after.status = row.status)
    (hattempts : after.attempts = row.attempts)
    (hresult : after.lastResult = row.lastResult)
    (hdoneAt : after.doneAt = row.doneAt) (howner : after.OwnerKey workers)
    (hactive : after.ActiveOwnerCheck) (hshape : after.StateShapeCheck) :
    Repaired workers row after := by
  have hkept : after.status = row.status ∧ after.attempts = row.attempts ∧
      after.lastResult = row.lastResult ∧ after.doneAt = row.doneAt :=
    ⟨hstatus, hattempts, hresult, hdoneAt⟩
  have hbounded := hlegacy.bounded
  refine ⟨howner, hactive, hshape, ⟨by omega, hmax⟩, by omega, ?_, ?_, ?_, ?_,
    fun _ => hkept, fun _ => hkept⟩
  · exact fun hne => absurd hattempts hne
  all_goals
    intro hyes
    simp [hlost] at hyes

theorem migrated_repaired (hlegacy : row.Legacy) (workers : List WorkerRow)
    (clock : MigrationClock) :
    Repaired workers row (row.migrated workers clock) := by
  rcases migrated_cases workers clock row with ⟨hactive, hforeign, heq⟩ |
    ⟨hactive, howned, hlockAt, heq⟩ | ⟨hidle, heq⟩ |
    ⟨hlost, hstatus, howner, heq⟩ <;> rw [heq]
  · have hlost : row.lost workers = true := by
      simp [lost, hactive, hforeign]
    refine repaired_of_lost clock.ownership hlegacy hlost rfl ?_ ?_ ?_
      rfl rfl <;> simp [normalized, ownershipLost, hactive]
  · have hlost : row.lost workers = true := by
      simp [lost, hactive, hlockAt]
    exact repaired_of_lost clock.shape hlegacy hlost rfl rfl rfl rfl rfl rfl
  · have hlost : row.lost workers = false := by
      simp [lost, hidle]
    exact repaired_of_kept hlegacy hlost rfl rfl rfl rfl rfl (Or.inl rfl)
      (Or.inl hidle) ⟨Or.inr ⟨rfl, rfl⟩, Or.inl hidle⟩
  · refine repaired_of_kept hlegacy hlost rfl rfl rfl rfl rfl howner ?_
      ⟨Or.inl hstatus, ?_⟩
    all_goals
      by_cases hactive : row.active = true
      · simp only [lost, hactive, Bool.true_and, Bool.or_eq_false_iff,
          Bool.not_eq_false'] at hlost
        have hlockBy := owned_lockBy hlost.1
        first
          | exact Or.inr hlockBy
          | refine Or.inr ⟨hlockBy, ?_⟩
            simpa [normalized] using hlost.2
      · exact Or.inl (Bool.eq_false_iff.mpr hactive)

/-- A row that passes the two checks is left alone by the last two
migrations. -/
theorem closeShape_id {row : LegacyJob} (hactive : row.ActiveOwnerCheck)
    (hshape : row.StateShapeCheck) (clock : MigrationClock) :
    repairClaim clock.shape (clearPending (repairActiveOwner clock.owner row)) =
      row := by
  have howner : repairActiveOwner clock.owner row = row := by
    rcases hactive with hidle | hlockBy
    · simp [repairActiveOwner, updateRow, hidle]
    · simp only [repairActiveOwner, updateRow]
      rw [if_neg]
      simp [Option.isSome_iff_ne_none.mp hlockBy]
  have hclear : clearPending row = row := by
    rcases hshape.1 with hstatus | ⟨hlockBy, hlockAt⟩
    · simp [clearPending, updateRow, hstatus]
    · simp [clearPending, updateRow, hlockBy, hlockAt]
  have hclaim : repairClaim clock.shape row = row := by
    rcases hshape.2 with hidle | ⟨_, hlockAt⟩
    · simp [repairClaim, updateRow, hidle]
    · simp only [repairClaim, updateRow]
      rw [if_neg]
      simp [Option.isSome_iff_ne_none.mp hlockAt]
  rw [howner, hclear, hclaim]

end LegacyJob

theorem migrate_eq_map {clock : MigrationClock} {rows : List LegacyJob} :
    migrate workers clock rows =
      rows.map (LegacyJob.migrated workers clock) := by
  simp only [migrate, closeShape, taskStateShape, requireActiveOwner,
    hardenApalisSql, repairLegacyOwnership, List.map_map]
  apply List.map_congr_left
  intro row _
  simp only [Function.comp_apply, LegacyJob.defaultPriority_truncateLockAt]
  rfl

/-- For every legacy content, the data steps of the four migrations repair
every row as `Repaired` says, and the last two change nothing when they are
applied again. -/
theorem migrations_repair_legacy {rows : List LegacyJob}
    (hlegacy : ∀ row ∈ rows, row.Legacy) (clock again : MigrationClock) :
    List.Forall₂ (LegacyJob.Repaired workers) rows
        (migrate workers clock rows) ∧
      closeShape again (migrate workers clock rows) =
        migrate workers clock rows := by
  rw [migrate_eq_map]
  constructor
  · rw [List.forall₂_map_right_iff, List.forall₂_same]
    exact fun row hrow => row.migrated_repaired (hlegacy row hrow) workers clock
  · simp only [closeShape, taskStateShape, requireActiveOwner, List.map_map]
    apply List.map_congr_left
    intro row hrow
    have hrepaired := LegacyJob.migrated_repaired (hlegacy row hrow) workers
      clock
    simp only [Function.comp_apply]
    exact LegacyJob.closeShape_id hrepaired.activeOwner hrepaired.stateShape
      again

/-- A running row owned across queues, with one attempt left: it is charged
once and killed. -/
theorem migrations_repair_legacy_foreign_owner :
    let row : LegacyJob := ⟨[], "a", "q", .running, 2, 3, 0, none, some 7,
      some "w", none, none, none, none⟩
    let worker : WorkerRow := ⟨"w", "other", "", "", 0, none, none⟩
    let clock : MigrationClock := ⟨10, 20, 30, 40⟩
    List.Forall₂ (LegacyJob.Repaired [worker]) [row]
        (migrate [worker] clock [row]) ∧
      (migrate [worker] clock [row]).map LegacyJob.status = [.killed] ∧
      (migrate [worker] clock [row]).map LegacyJob.attempts = [3] := by
  intro row worker clock
  have hlegacy : ∀ other ∈ [row], other.Legacy := by
    intro other hother
    obtain rfl := List.mem_singleton.mp hother
    exact ⟨by decide, by decide, by decide⟩
  exact ⟨(migrations_repair_legacy [worker] hlegacy clock clock).1,
    by decide, by decide⟩

end ApalisPostgres
