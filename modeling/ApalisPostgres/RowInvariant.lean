/-
The shape of a task row over whole runs.  Six coupled columns are written by
a dozen statements; every one of them leaves a row whose owner, completion
time and retry budget agree with its status, so that the schema never has a
reason to refuse a write.
-/
import ApalisPostgres.Discipline

namespace ApalisPostgres

open RowStore

/-- The retry budget of a row: never overdrawn, and not spent while a claim
is active. -/
structure JobRow.Budgeted (row : JobRow) : Prop where
  attempts_nonneg : 0 ≤ row.attempts
  attempts_le : row.attempts ≤ row.maxAttempts
  active : row.active = true → row.attempts < row.maxAttempts

/-- The columns an enqueue fixes for the life of the row. -/
structure JobRow.Storable (row : JobRow) : Prop where
  maxAttempts_pos : 0 < row.maxAttempts
  maxAttempts_le : row.maxAttempts ≤ i32Max
  priority_nonneg : 0 ≤ row.priority
  priority_le : row.priority ≤ i32Max

/-- What the columns of a row say about each other. -/
structure JobRow.WellFormed (row : JobRow) : Prop extends row.Budgeted where
  pending : row.status = .pending →
    row.lockBy = none ∧ row.lockAt = none ∧ row.doneAt = none ∧
      row.attempts < row.maxAttempts
  owned : row.active = true →
    row.lockBy.isSome = true ∧ (∃ seconds, row.lockAt = some (toTimestamp seconds)) ∧
      row.doneAt = none
  failed : row.status = .failed →
    row.doneAt.isSome = true ∧ row.attempts < row.maxAttempts
  finished : row.status = .done ∨ row.status = .killed →
    row.doneAt.isSome = true

/-- The schema bounds the columns of every row it accepts. -/
theorem storable_of_accepted {row : JobRow} (h : rowViolation row = none) :
    row.Storable := by
  unfold rowViolation at h
  split at h
  · cases h
  rename_i hrange
  split at h
  · cases h
  split at h
  · cases h
  rename_i hmax
  split at h
  · cases h
  split at h
  · cases h
  rename_i hpriority
  simp only [not_not] at hrange hmax hpriority
  exact ⟨hmax, hrange.2.1, hpriority, hrange.2.2⟩

/-- The schema bounds the count of every row it accepts. -/
theorem attempts_of_accepted {row : JobRow} (h : rowViolation row = none) :
    0 ≤ row.attempts ∧ row.attempts ≤ row.maxAttempts := by
  unfold rowViolation at h
  split at h
  · cases h
  split at h
  · cases h
  rename_i hnonneg
  split at h
  · cases h
  split at h
  · cases h
  rename_i hle
  exact ⟨not_not.mp hnonneg, not_not.mp hle⟩

/-- The schema accepts a row within its bounds whose owner agrees with its
status. -/
theorem rowViolation_eq_none {row : JobRow} (hstorable : row.Storable)
    (hnonneg : 0 ≤ row.attempts) (hle : row.attempts ≤ row.maxAttempts)
    (howned : row.active = true →
      row.lockBy.isSome = true ∧ row.lockAt.isSome = true)
    (hpending : row.status = .pending →
      row.lockBy = none ∧ row.lockAt = none) : rowViolation row = none := by
  have hpos := hstorable.maxAttempts_pos
  have hmax := hstorable.maxAttempts_le
  have hattempts : row.attempts ≤ i32Max := hle.trans hmax
  unfold ApalisPostgres.rowViolation
  rw [if_neg (by simp [hattempts, hmax, hstorable.priority_le]),
    if_neg (by simpa using hnonneg), if_neg (by simpa using hpos),
    if_neg (by simpa using hle),
    if_neg (by simpa using hstorable.priority_nonneg)]
  cases hstatus : row.active with
  | true =>
      have hnot : row.status ≠ .pending := by
        intro heq
        simp [JobRow.active, heq] at hstatus
      obtain ⟨hlockBy, hlockAt⟩ := howned hstatus
      simp [← Option.not_isSome, hlockBy, hlockAt, hnot]
  | false =>
      by_cases hp : row.status = .pending
      · simp [hpending hp]
      · simp [hp]

theorem JobRow.WellFormed.rowViolation {row : JobRow} (h : row.WellFormed)
    (hstorable : row.Storable) : rowViolation row = none := by
  refine rowViolation_eq_none hstorable h.attempts_nonneg h.attempts_le ?_ ?_
  · intro hactive
    obtain ⟨howner, ⟨seconds, hlockAt⟩, _⟩ := h.owned hactive
    exact ⟨howner, by simp [hlockAt]⟩
  · intro hstatus
    obtain ⟨hlockBy, hlockAt, _⟩ := h.pending hstatus
    exact ⟨hlockBy, hlockAt⟩

theorem lockable_attempts {worker : String} {now : Timestamp} {row : JobRow}
    (h : lockable worker now row = true) (hrow : row.Budgeted) :
    row.attempts < row.maxAttempts := by
  simp only [lockable, Bool.and_eq_true, Bool.or_eq_true,
    decide_eq_true_eq] at h
  rcases h.2 with ((⟨_, hfree⟩ | ⟨hqueued, _⟩) | ⟨hrunning, _⟩) | ⟨_, hfree⟩
  · exact hfree
  · exact hrow.active (by simp [JobRow.active, hqueued])
  · exact hrow.active (by simp [JobRow.active, hrunning])
  · exact hfree

theorem truncSecond_eq (now : Timestamp) :
    ∃ seconds, truncSecond now = toTimestamp seconds :=
  ⟨now / microsPerSecond, rfl⟩

section

variable {env : Env} {view : Db} {op : Op} {stmt : Stmt} {change : JobChange}
  {row : JobRow}

/-- A written row keeps its budget: only a row with budget left is claimed,
and an active row has an attempt left to charge. -/
theorem JobStep.budgeted (h : JobStep env view stmt change)
    (hissued : Issued view op stmt)
    (hview : ∀ row ∈ view.jobs.rows, row.Budgeted)
    (hafter : change.after = some row) (hpos : 0 < row.maxAttempts) :
    row.Budgeted := by
  cases h with
  | enqueue _ _ =>
      cases hafter
      refine ⟨le_refl 0, le_of_lt hpos, ?_⟩
      intro hactive
      simp [NewJob.row, JobRow.active] at hactive
  | pollClaim hdue | notifyClaim hdue _ | compatibilityClaim hdue =>
      cases hafter
      have hold := hview _ hdue.stored
      exact ⟨hold.attempts_nonneg, hold.attempts_le,
        fun _ => ((claimable_iff _).mp hdue.claimable).2⟩
  | quarantine hrow =>
      cases hafter
      have hold := hview _ hrow
      have hnonneg := hold.attempts_nonneg
      have hle := hold.attempts_le
      refine ⟨?_, ?_, fun hactive => by simp at hactive⟩
      · simp only [quarantineRow, boundedIncrement]
        omega
      · simp only [quarantineRow, boundedIncrement]
        omega
  | lock hrow _ hlockable =>
      cases hafter
      have hold := hview _ hrow
      have hbudget := lockable_attempts hlockable hold
      exact ⟨hold.attempts_nonneg, hold.attempts_le, fun _ => hbudget⟩
  | undecodable hrow hepoch =>
      cases hafter
      have hold := hview _ hrow
      have hnonneg := hold.attempts_nonneg
      have hbudget := hold.active (epochMatches_iff.mp hepoch).2.1
      refine ⟨?_, ?_, fun hactive => by simp at hactive⟩
      · simp only [undecodableRow, boundedIncrement]
        omega
      · simp only [undecodableRow, boundedIncrement]
        omega
  | start hrow hstart _ _ =>
      cases hafter
      have hold := hview _ hrow
      exact ⟨hold.attempts_nonneg, hold.attempts_le,
        fun _ => hold.active (startable_iff.mp hstart).active⟩
  | acknowledge hrow hepoch =>
      cases hafter
      cases hissued with
      | read hread => simp [Stmt.readOnly] at hread
      | ackTask hupdate _ =>
          have hold := hview _ hrow
          obtain ⟨_, _, hactive, _, _, hstarted⟩ :=
            acknowledgeable_iff.mp hepoch
          have hnonneg := hupdate.attempts
          have hbudget := hold.active hactive
          have hpinned := hupdate.startedAttempts
          refine ⟨hnonneg, ?_, ?_⟩
          · simp only [ackRow]
            omega
          · intro hactive'
            simp [ackRow_active hupdate] at hactive'
  | @recovery _ _ _ reason old hrow _ hactive _ _ =>
      cases hafter
      have hold := hview _ hrow
      have hnonneg := hold.attempts_nonneg
      have hbudget := hold.active hactive
      have hnext : 0 ≤ nextAttempts reason old ∧
          nextAttempts reason old ≤ old.maxAttempts := by
        simp only [nextAttempts, boundedIncrement]
        split <;> omega
      exact ⟨hnext.1, hnext.2, fun hactive' => by simp at hactive'⟩
  | purge _ _ _ _ => cases hafter

/-- A failed acknowledgement leaves budget in the row it can match. -/
def AckFits (view : Db) (stmt : Stmt) : Prop :=
  ∀ update row, stmt = .ackTask update → row ∈ view.jobs.rows →
    acknowledgeable update row = true → update.status = .failed →
    update.attempts < row.maxAttempts

/-- A row that left its claim: what remains is the completion time of the
statuses that carry one. -/
theorem JobRow.WellFormed.of_released (hbudgeted : row.Budgeted)
    (hactive : row.active = false)
    (hpending : row.status = .pending → row.lockBy = none ∧
      row.lockAt = none ∧ row.doneAt = none ∧ row.attempts < row.maxAttempts)
    (hfailed : row.status = .failed → row.attempts < row.maxAttempts)
    (hdoneAt : row.status ≠ .pending → row.doneAt.isSome = true) :
    row.WellFormed := by
  refine ⟨hbudgeted, hpending, ?_, ?_, ?_⟩
  · intro hactive'
    simp [hactive] at hactive'
  · intro hstatus
    exact ⟨hdoneAt (by simp [hstatus]), hfailed hstatus⟩
  · intro hstatus
    apply hdoneAt
    rcases hstatus with hstatus | hstatus <;> simp [hstatus]

theorem ackRow_wellFormed {update : AckTaskUpdate} {now : Timestamp}
    {token : Option String} {res : HandlerResult} {parts : Parts}
    (hupdate : update.Acknowledges token res parts)
    (hbudgeted : (ackRow now update row).Budgeted)
    (hfits : update.status = .failed → update.attempts < row.maxAttempts) :
    (ackRow now update row).WellFormed := by
  refine .of_released hbudgeted (ackRow_active hupdate) ?_ hfits fun _ => rfl
  intro hstatus
  simp only [ackRow, hupdate.status, calculateStatus] at hstatus
  split at hstatus
  · cases hstatus
  · split at hstatus <;> cases hstatus

theorem recoverRow_wellFormed {now : Timestamp} {reason : Recovery}
    (hbudgeted : (recoverRow now reason row).Budgeted) :
    (recoverRow now reason row).WellFormed := by
  by_cases hexhausted : row.maxAttempts ≤ nextAttempts reason row
  · have hstatus : (recoverRow now reason row).status = .killed := by
      simp [recoverRow, hexhausted]
    refine .of_released hbudgeted (recoverRow_active _ _ _) ?_ ?_ ?_
    · simp [hstatus]
    · simp [hstatus]
    · simp [recoverRow, hexhausted]
  · have hstatus : (recoverRow now reason row).status = .pending := by
      simp [recoverRow, hexhausted]
    refine .of_released hbudgeted (recoverRow_active _ _ _) ?_ ?_ ?_
    · intro _
      refine ⟨rfl, rfl, by simp [recoverRow, hexhausted], ?_⟩
      simp only [recoverRow]
      omega
    · simp [hstatus]
    · simp [hstatus]

theorem undecodableRow_wellFormed {now : Timestamp} {result : Json}
    (hbudgeted : (undecodableRow now result row).Budgeted) :
    (undecodableRow now result row).WellFormed := by
  refine .of_released hbudgeted (undecodableRow_active _ _ _) ?_ ?_ fun _ => rfl
  · intro hstatus
    simp only [undecodableRow] at hstatus
    split at hstatus <;> cases hstatus
  · intro hstatus
    simp only [undecodableRow] at hstatus
    split at hstatus
    · cases hstatus
    · simp only [undecodableRow, boundedIncrement]
      omega

theorem quarantineRow_wellFormed {now : Timestamp} {result : Json}
    (hbudgeted : (quarantineRow now result row).Budgeted) :
    (quarantineRow now result row).WellFormed := by
  refine .of_released hbudgeted rfl ?_ ?_ fun _ => rfl
  · intro hstatus
    cases hstatus
  · intro hstatus
    cases hstatus

/-- An active row: owned since a whole second, and not completed. -/
theorem JobRow.WellFormed.of_owned {seconds : Int} {owner : String}
    (hbudgeted : row.Budgeted) (hactive : row.active = true)
    (howner : row.lockBy = some owner)
    (hlockAt : row.lockAt = some (toTimestamp seconds))
    (hdoneAt : row.doneAt = none) : row.WellFormed := by
  have hstatus := row.active_iff.mp hactive
  refine ⟨hbudgeted, ?_, ?_, ?_, ?_⟩
  · intro hpending
    simp [hpending] at hstatus
  · intro _
    exact ⟨by simp [howner], ⟨seconds, hlockAt⟩, hdoneAt⟩
  · intro hfailed
    simp [hfailed] at hstatus
  · intro hfinished
    rcases hfinished with hdone | hkilled
    · simp [hdone] at hstatus
    · simp [hkilled] at hstatus

/-- Every statement of the discipline leaves a well-formed row. -/
theorem JobStep.wellFormed (h : JobStep env view stmt change)
    (hissued : Issued view op stmt) (hfits : AckFits view stmt)
    (hview : ∀ row ∈ view.jobs.rows, row.WellFormed)
    (hafter : change.after = some row) (hpos : 0 < row.maxAttempts) :
    row.WellFormed := by
  have hbudgeted : row.Budgeted := h.budgeted hissued
    (fun row hrow => (hview row hrow).toBudgeted) hafter hpos
  obtain ⟨seconds, hseconds⟩ := truncSecond_eq env.now
  cases h with
  | @enqueue queue batch task _ _ =>
      cases hafter
      refine ⟨hbudgeted, ?_, ?_, ?_, ?_⟩
      · intro _
        exact ⟨rfl, rfl, rfl, hpos⟩
      · intro hactive
        simp [NewJob.row, JobRow.active] at hactive
      · intro hstatus
        cases hstatus
      · intro hstatus
        rcases hstatus with hstatus | hstatus <;> cases hstatus
  | pollClaim hdue | notifyClaim hdue _ | compatibilityClaim hdue =>
      cases hafter
      exact .of_owned hbudgeted rfl rfl (congrArg some hseconds) rfl
  | quarantine _ =>
      cases hafter
      exact quarantineRow_wellFormed hbudgeted
  | @lock worker queue old hrow _ _ =>
      cases hafter
      by_cases hkept : (old.active && old.lockBy = some worker &&
          old.lockAt.isSome) = true
      · have hactive : old.active = true := by
          simp only [Bool.and_eq_true] at hkept
          exact hkept.1.1
        obtain ⟨_, ⟨since, hsince⟩, _⟩ := (hview _ hrow).owned hactive
        have hlockAt : (lockRow worker env.now old).lockAt =
            some (toTimestamp since) := by
          rw [← hsince]
          exact if_pos hkept
        exact .of_owned hbudgeted rfl rfl hlockAt rfl
      · have hlockAt : (lockRow worker env.now old).lockAt =
            some (toTimestamp seconds) := by
          rw [← hseconds]
          exact if_neg hkept
        exact .of_owned hbudgeted rfl rfl hlockAt rfl
  | undecodable _ _ =>
      cases hafter
      exact undecodableRow_wellFormed hbudgeted
  | @start claim old owner hrow hstart _ _ =>
      cases hafter
      have hstartable := startable_iff.mp hstart
      obtain ⟨_, _, hdoneAt⟩ := (hview _ hrow).owned hstartable.active
      exact .of_owned hbudgeted rfl hstartable.lockBy hstartable.lockAt hdoneAt
  | acknowledge hrow hepoch =>
      cases hafter
      cases hissued with
      | read hread => simp [Stmt.readOnly] at hread
      | ackTask hupdate _ =>
          exact ackRow_wellFormed hupdate hbudgeted
            (hfits _ _ rfl hrow hepoch)
  | recovery _ _ _ _ _ =>
      cases hafter
      exact recoverRow_wellFormed hbudgeted
  | purge _ _ _ _ => cases hafter

theorem JobStep.fixed_columns (h : JobStep env view stmt change)
    {old : JobRow} (hbefore : change.before = some old)
    (hafter : change.after = some row) :
    row.id = old.id ∧ row.jobType = old.jobType ∧
      row.maxAttempts = old.maxAttempts ∧ row.priority = old.priority := by
  cases h <;> cases hbefore <;> cases hafter <;> exact ⟨rfl, rfl, rfl, rfl⟩

theorem JobStep.enqueue_iff (h : JobStep env view stmt change) :
    change.tag = .enqueue ↔ change.before = none := by
  cases h <;> simp

theorem ownerRegistered_iff {db : Db} :
    ownerRegistered db row = true ↔ ∀ worker, row.lockBy = some worker →
      ∃ owner, db.workers.get? (worker, row.jobType) = some owner := by
  unfold ownerRegistered
  cases row.lockBy with
  | none => simp
  | some worker => simp [Option.isSome_iff_exists]

/-- An UPDATE whose rewritten rows the schema accepts succeeds. -/
theorem exec_update {db : Db} {result : stmt.Result} {edge : JobEdge}
    {rewrite : JobRow → JobRow} {selected : List JobRow}
    (hplan : stmt.plan env db = .ok (result, updateJobs edge rewrite selected))
    (haccepted : ∀ row ∈ selected, rowViolation (rewrite row) = none)
    (howner : ∀ row ∈ selected, ownerRegistered db (rewrite row) = true) :
    stmt.exec env db = .ok (result, updateJobs edge rewrite selected) := by
  have hworkers : (db.apply (updateJobs edge rewrite selected)).workers =
      db.workers := by
    rw [Db.apply_workers, workerChanges_updateJobs]
    rfl
  have hviolation : (updateJobs edge rewrite selected).findSome?
      (effectViolation (db.apply (updateJobs edge rewrite selected))) =
        none := by
    apply List.findSome?_eq_none_iff.mpr
    intro effect heffect
    obtain ⟨row, hrow, rfl⟩ := mem_updateJobs heffect
    have hregistered : ownerRegistered
        (db.apply (updateJobs edge rewrite selected)) (rewrite row) = true := by
      rw [ownerRegistered_iff, hworkers]
      exact ownerRegistered_iff.mp (howner row hrow)
    simp [effectViolation, haccepted row hrow, hregistered]
  simp only [Stmt.exec, hplan, bind, Except.bind, hviolation, pure,
    Except.pure]

/-- Registrations that are referenced survive every statement. -/
theorem Executed.ownerRegistered {effects : List Effect}
    (h : Executed env view stmt effects)
    (hview : ∀ row ∈ view.jobs.rows, ownerRegistered view row = true)
    (hrow : row ∈ (view.apply effects).jobs.rows) :
    ownerRegistered (view.apply effects) row = true := by
  rcases h.row_cases hrow with ⟨change, hmem, hafter⟩ | ⟨hold, _⟩
  · exact (h.row_accepted hmem hafter).2
  · rw [ownerRegistered_iff]
    intro worker howner
    obtain ⟨owner, hget⟩ := ownerRegistered_iff.mp (hview row hold) worker howner
    rcases h.worker_cases (worker, row.jobType) with
      ⟨change, hmem, hkey, hafter⟩ | ⟨_, hsame⟩
    · cases hchange : change.after with
      | some left => exact ⟨left, hafter.trans hchange⟩
      | none =>
          have haccepted := h.accepted _ (mem_workerChanges.mp hmem)
          have hreferenced : referenced (view.apply effects) change.key =
              true := by
            simp only [referenced, hkey, List.any_eq_true]
            exact ⟨row, hrow, by simp [howner]⟩
          simp [effectViolation, hchange, hreferenced] at haccepted
    · exact ⟨owner, hsame.trans hget⟩

end

/-- The invariant of the job table that no caller has to promise. -/
structure Db.Budgeted (db : Db) : Prop where
  rows : ∀ row ∈ db.jobs.rows, row.Budgeted
  storable : ∀ row ∈ db.jobs.rows, row.Storable
  owners : ∀ row ∈ db.jobs.rows, ownerRegistered db row = true

theorem Db.budgeted_empty : Db.empty.Budgeted := by
  constructor <;> intro row hrow <;> cases hrow

theorem Executed.budgeted {env : Env} {view : Db} {op : Op} {stmt : Stmt}
    {effects : List Effect} (h : Executed env view stmt effects)
    (hissued : Issued view op stmt) (hview : view.Budgeted) :
    (view.apply effects).Budgeted := by
  refine ⟨?_, ?_, fun row hrow => h.ownerRegistered hview.owners hrow⟩
  · intro row hrow
    rcases h.row_cases hrow with ⟨change, hmem, hafter⟩ | ⟨hold, _⟩
    · exact (h.jobStep hmem).budgeted hissued hview.rows hafter
        (storable_of_accepted (h.row_accepted hmem hafter).1).maxAttempts_pos
    · exact hview.rows row hold
  · intro row hrow
    rcases h.row_cases hrow with ⟨change, hmem, hafter⟩ | ⟨hold, _⟩
    · exact storable_of_accepted (h.row_accepted hmem hafter).1
    · exact hview.storable row hold

variable {rows : TaskConversion}

theorem Reachable.budgeted {admits : System → Op → Prop} {system : System}
    (h : Reachable rows admits system) : system.db.Budgeted := by
  induction h with
  | initial => exact Db.budgeted_empty
  | step hsystem invocation hadmits ih =>
      exact (System.execute_ensures rows _ invocation
        (P := fun view _ => view.Budgeted) ih
        (fun stmt env view effects changes hissued hview hexec =>
          hexec.budgeted hissued hview)).1

end ApalisPostgres
