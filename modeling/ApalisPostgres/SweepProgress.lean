/-
Progress of the orphan sweep.  One sweep is capped twice, at a thousand stale
workers with an active row and at a thousand of their rows.  Neither cap
starves the other: a sweep recovers a thousand rows as long as there are that
many, and however the batches fall, repeated sweeps end where one unbounded
recovery would.
-/
import ApalisPostgres.RowInvariant

namespace ApalisPostgres

open RowStore

variable {rows : TaskConversion}

/-- The registration counts as stale for the window. -/
def staleFor (window : Duration) (now : Timestamp) (row : WorkerRow) : Bool :=
  elapsedAtLeast window now row.lastSeen

/-- An active row of the queue whose owner is stale. -/
def orphaned (workers : WorkerTable) (queue : String) (window : Duration)
    (now : Timestamp) (row : JobRow) : Bool :=
  row.jobType = queue && row.active && row.lockBy.any fun owner =>
    (workers.get? (owner, queue)).any (staleFor window now)

def orphanedRows (db : Db) (queue : String) (window : Duration)
    (now : Timestamp) : List JobRow :=
  db.jobs.rows.filter (orphaned db.workers queue window now)

/-- No other session holds a row a sweep could skip. -/
structure Undisputed (env : Env) : Prop where
  jobs : ∀ id, env.jobLocked id = false
  workers : ∀ key, env.workerLocked key = false

/-- Every stored row satisfies the checks of its columns. -/
def Db.Accepted (db : Db) : Prop :=
  ∀ row ∈ db.jobs.rows, rowViolation row = none

/-- One sweep as one transaction. -/
def sweep (rows : TaskConversion) (queue : String) (window : Duration)
    (clock : Nat → Env) (db : Db) : BodyEnd Db Effect Error Outcome :=
  (program rows (.reenqueueOrphaned queue window)).execute sql clock db

/-- The workers a sweep locks. -/
def sweptWorkers (db : Db) (queue : String) (window : Duration)
    (clock : Nat → Env) : List String :=
  (orphanSelection (clock 0) db queue window
    reenqueueOrphanedBatchLimit).map WorkerRow.id

/-- The rows a sweep recovers. -/
def sweptRows (db : Db) (queue : String) (window : Duration)
    (clock : Nat → Env) : List JobRow :=
  recoverySelection (clock 1) db queue (sweptWorkers db queue window clock)
    .staleSweep

section

variable {db : Db} {queue : String} {window : Duration} {clock : Nat → Env}

theorem mem_orphanedRows {now : Timestamp} {row : JobRow} :
    row ∈ orphanedRows db queue window now ↔
      row ∈ db.jobs.rows ∧ row.jobType = queue ∧ row.active = true ∧
        ∃ worker, row.lockBy = some worker.id ∧
          worker ∈ db.workers.rows ∧ worker.workerType = queue ∧
          staleFor window now worker = true := by
  simp only [orphanedRows, orphaned, List.mem_filter, Bool.and_eq_true,
    decide_eq_true_eq, Option.any_eq_true]
  constructor
  · rintro ⟨hrow, ⟨hqueue, hactive⟩, owner, howner, worker, hget, hstale⟩
    have hkey := Table.key_of_get? hget
    simp only [WorkerRow.key, Prod.mk.injEq] at hkey
    exact ⟨hrow, hqueue, hactive, worker, hkey.1 ▸ howner,
      Table.mem_of_get? hget, hkey.2, hstale⟩
  · rintro ⟨hrow, hqueue, hactive, worker, howner, hworker, htype, hstale⟩
    have hget := Table.get?_of_mem hworker
    rw [WorkerRow.key, htype] at hget
    exact ⟨hrow, ⟨hqueue, hactive⟩, worker.id, howner, worker, hget, hstale⟩

/-- A stale registration that owns an active row. -/
def owning (db : Db) (queue : String) (window : Duration) (now : Timestamp)
    (worker : WorkerRow) : Bool :=
  worker.workerType = queue && staleFor window now worker &&
    db.jobs.rows.any fun job =>
      job.jobType = worker.workerType && job.lockBy = some worker.id &&
        job.active

theorem orphanSelection_eq (hclock : Undisputed (clock 0)) (limit : Nat) :
    orphanSelection (clock 0) db queue window limit =
      ((db.workers.rows.filter
        (owning db queue window (clock 0).now)).insertionSort
          workerIdOrder).take limit := by
  unfold orphanSelection
  congr 3
  funext worker
  simp [owning, staleFor, hclock.workers, Bool.and_assoc]

/-- The registrations of one queue have different names. -/
theorem owning_ids_nodup (now : Timestamp) :
    (((db.workers.rows.filter
      (owning db queue window now)).insertionSort
        workerIdOrder).map WorkerRow.id).Nodup := by
  have hperm := (List.perm_insertionSort workerIdOrder
    (db.workers.rows.filter (owning db queue window now))).map WorkerRow.id
  rw [hperm.nodup_iff]
  have hkeys : ((db.workers.rows.filter
      (owning db queue window now)).map WorkerRow.key).Nodup :=
    (List.filter_sublist.map _).nodup db.workers.keyed
  refine (List.nodup_map_iff_inj_on hkeys.of_map).mpr ?_
  intro first hfirst second hsecond hid
  have htype : ∀ worker ∈ db.workers.rows.filter (owning db queue window now),
      worker.workerType = queue := by
    intro worker hworker
    have howning := (List.mem_filter.mp hworker).2
    simp only [owning, Bool.and_eq_true, decide_eq_true_eq] at howning
    exact howning.1.1
  apply (List.nodup_map_iff_inj_on hkeys.of_map).mp hkeys first hfirst second
    hsecond
  rw [WorkerRow.key, WorkerRow.key, hid, htype first hfirst,
    htype second hsecond]

/-- The active rows of some workers. -/
def ownedRows (db : Db) (queue : String) (workers : List String) :
    List JobRow :=
  db.jobs.rows.filter fun row =>
    row.jobType = queue && row.active &&
      (row.lockBy.any fun owner => workers.contains owner)

theorem sweptRows_eq (hclock : Undisputed (clock 1)) :
    sweptRows db queue window clock =
      ((ownedRows db queue
        (sweptWorkers db queue window clock)).insertionSort idOrder).take
          reenqueueOrphanedBatchLimit := by
  unfold sweptRows recoverySelection
  have hall : ∀ owned : List JobRow,
      (owned.filter fun row => !(clock 1).jobLocked row.id) = owned := by
    intro owned
    apply List.filter_eq_self.mpr
    intro row _
    simp [hclock.jobs]
  dsimp only
  rw [hall]
  rfl

theorem mem_sweptWorkers (hclock : Undisputed (clock 0)) {owner : String}
    (h : owner ∈ sweptWorkers db queue window clock) :
    ∃ worker ∈ db.workers.rows, worker.id = owner ∧
      owning db queue window (clock 0).now worker = true := by
  rw [sweptWorkers, orphanSelection_eq hclock] at h
  obtain ⟨worker, hworker, hid⟩ := List.mem_map.mp h
  have hfiltered := (List.mem_insertionSort _).mp (List.mem_of_mem_take hworker)
  exact ⟨worker, (List.mem_filter.mp hfiltered).1, hid,
    (List.mem_filter.mp hfiltered).2⟩

theorem orphaned_of_owned (hclock : Undisputed (clock 0)) {row : JobRow}
    (h : row ∈ ownedRows db queue (sweptWorkers db queue window clock)) :
    row ∈ orphanedRows db queue window (clock 0).now := by
  simp only [ownedRows, List.mem_filter, Bool.and_eq_true, decide_eq_true_eq,
    Option.any_eq_true, List.contains_iff_mem] at h
  obtain ⟨hrow, ⟨hqueue, hactive⟩, owner, howner, hswept⟩ := h
  obtain ⟨worker, hworker, hid, howning⟩ := mem_sweptWorkers hclock hswept
  simp only [owning, Bool.and_eq_true, decide_eq_true_eq] at howning
  exact mem_orphanedRows.mpr ⟨hrow, hqueue, hactive, worker, hid ▸ howner,
    hworker, howning.1.1, howning.1.2⟩

/-- When the cap on workers does not bind, every orphaned row is theirs. -/
theorem owned_of_orphaned (hclock : Undisputed (clock 0))
    (hfew : (db.workers.rows.filter
      (owning db queue window (clock 0).now)).length ≤
        reenqueueOrphanedBatchLimit) {row : JobRow}
    (h : row ∈ orphanedRows db queue window (clock 0).now) :
    row ∈ ownedRows db queue (sweptWorkers db queue window clock) := by
  obtain ⟨hrow, hqueue, hactive, worker, howner, hworker, htype, hstale⟩ :=
    mem_orphanedRows.mp h
  have howning : owning db queue window (clock 0).now worker = true := by
    simp only [owning, Bool.and_eq_true, decide_eq_true_eq, List.any_eq_true]
    exact ⟨⟨htype, hstale⟩, row, hrow, ⟨hqueue.trans htype.symm, howner⟩,
      hactive⟩
  have hswept : worker.id ∈ sweptWorkers db queue window clock := by
    rw [sweptWorkers, orphanSelection_eq hclock,
      List.take_of_length_le (by rwa [List.length_insertionSort])]
    exact List.mem_map_of_mem ((List.mem_insertionSort _).mpr
      (List.mem_filter.mpr ⟨hworker, howning⟩))
  simp only [ownedRows, List.mem_filter, Bool.and_eq_true, decide_eq_true_eq,
    Option.any_eq_true, List.contains_iff_mem]
  exact ⟨hrow, ⟨hqueue, hactive⟩, worker.id, howner, hswept⟩

/-- Every locked worker contributes a row, and no row is shared. -/
theorem length_sweptWorkers_le (hclock : Undisputed (clock 0)) :
    (sweptWorkers db queue window clock).length ≤
      (ownedRows db queue (sweptWorkers db queue window clock)).length := by
  have hnodup : (sweptWorkers db queue window clock).Nodup := by
    rw [sweptWorkers, orphanSelection_eq hclock]
    exact ((List.take_sublist _ _).map _).nodup (owning_ids_nodup _)
  have hsubset : sweptWorkers db queue window clock ⊆
      (ownedRows db queue (sweptWorkers db queue window clock)).filterMap
        JobRow.lockBy := by
    intro owner howner
    obtain ⟨worker, _, hid, howning⟩ := mem_sweptWorkers hclock howner
    simp only [owning, Bool.and_eq_true, decide_eq_true_eq,
      List.any_eq_true] at howning
    obtain ⟨⟨htype, _⟩, job, hjob, ⟨hqueue, hlockBy⟩, hactive⟩ := howning
    refine List.mem_filterMap.mpr ⟨job, ?_, hid ▸ hlockBy⟩
    simp only [ownedRows, List.mem_filter, Bool.and_eq_true,
      decide_eq_true_eq, Option.any_eq_true, List.contains_iff_mem]
    exact ⟨hjob, ⟨hqueue.trans htype, hactive⟩, owner, hid ▸ hlockBy, howner⟩
  exact (List.subperm_of_subset hnodup hsubset).length_le.trans
    (List.length_filterMap_le _ _)

/-- Neither cap starves the other: the rows of the locked workers reach the
cap on rows whenever the orphaned rows do. -/
theorem length_sweptRows (hfirst : Undisputed (clock 0))
    (hsecond : Undisputed (clock 1)) :
    (sweptRows db queue window clock).length =
      min reenqueueOrphanedBatchLimit
        (orphanedRows db queue window (clock 0).now).length := by
  let owned := ownedRows db queue (sweptWorkers db queue window clock)
  have hnodup {keep : JobRow → Bool} : (db.jobs.rows.filter keep).Nodup :=
    List.filter_sublist.nodup db.jobs.keyed.of_map
  have hle : owned.length ≤
      (orphanedRows db queue window (clock 0).now).length :=
    (List.subperm_of_subset hnodup fun _ hrow =>
      orphaned_of_owned hfirst hrow).length_le
  have hcount : min reenqueueOrphanedBatchLimit owned.length =
      min reenqueueOrphanedBatchLimit
        (orphanedRows db queue window (clock 0).now).length := by
    by_cases hfew : (db.workers.rows.filter
        (owning db queue window (clock 0).now)).length ≤
          reenqueueOrphanedBatchLimit
    · have hge : (orphanedRows db queue window (clock 0).now).length ≤
          owned.length :=
        (List.subperm_of_subset hnodup fun _ hrow =>
          owned_of_orphaned hfirst hfew hrow).length_le
      omega
    · -- a full batch of workers owns a full batch of rows
      have hfull : (sweptWorkers db queue window clock).length =
          reenqueueOrphanedBatchLimit := by
        rw [sweptWorkers, orphanSelection_eq hfirst, List.length_map,
          List.length_take, List.length_insertionSort]
        omega
      have howned : (sweptWorkers db queue window clock).length ≤
          owned.length := length_sweptWorkers_le hfirst
      omega
  rw [sweptRows_eq hsecond, List.length_take, List.length_insertionSort]
  exact hcount

theorem nextAttempts_bounds {reason : Recovery} {row : JobRow}
    (h : rowViolation row = none) :
    0 ≤ nextAttempts reason row ∧ nextAttempts reason row ≤ row.maxAttempts := by
  obtain ⟨hnonneg, hle⟩ := attempts_of_accepted h
  have hpos := (storable_of_accepted h).maxAttempts_pos
  unfold nextAttempts boundedIncrement
  split <;> omega

theorem recoverRow_accepted {reason : Recovery} {row : JobRow}
    {now : Timestamp} (h : rowViolation row = none) :
    rowViolation (recoverRow now reason row) = none := by
  have hstorable := storable_of_accepted h
  obtain ⟨hnonneg, hle⟩ : 0 ≤ nextAttempts reason row ∧
      nextAttempts reason row ≤ row.maxAttempts := nextAttempts_bounds h
  refine rowViolation_eq_none ⟨hstorable.maxAttempts_pos,
    hstorable.maxAttempts_le, hstorable.priority_nonneg,
    hstorable.priority_le⟩ hnonneg hle ?_ ?_
  · intro hactive
    rw [recoverRow_active] at hactive
    cases hactive
  · intro _
    exact ⟨rfl, rfl⟩

/-- A sweep of a stored table commits, and its count is what it recovered. -/
theorem sweep_executes (hdb : db.Accepted) :
    sweep rows queue window clock db =
      ⟨db.apply (updateJobs (.recovery .staleSweep)
          (recoverRow (clock 1).now .staleSweep)
          (sweptRows db queue window clock)),
        updateJobs (.recovery .staleSweep)
          (recoverRow (clock 1).now .staleSweep)
          (sweptRows db queue window clock),
        .ok (.count (sweptRows db queue window clock).length)⟩ := by
  have hlocked : sql.exec (.lockOrphanedWorkers queue window
      reenqueueOrphanedBatchLimit) (clock 0) db =
        .ok (sweptWorkers db queue window clock, []) :=
    exec_of_plan_nil rfl
  have hrecovered : sql.exec (.recoverOwned queue
      (sweptWorkers db queue window clock) .staleSweep) (clock 1) db =
        .ok ((sweptRows db queue window clock).length,
          updateJobs (.recovery .staleSweep)
            (recoverRow (clock 1).now .staleSweep)
            (sweptRows db queue window clock)) := by
    refine exec_update rfl ?_ ?_
    · intro row hrow
      exact recoverRow_accepted (hdb row (mem_recoverySelection hrow).1)
    · intro row _
      rfl
  apply Program.execute_map
  unfold reenqueueOrphaned
  rw [query_bind, Program.runBody_statement hlocked]
  by_cases hnone : (sweptWorkers db queue window clock).isEmpty = true
  · have hempty : sweptRows db queue window clock = [] := by
      apply List.eq_nil_iff_forall_not_mem.mpr
      intro row hrow
      obtain ⟨_, _, _, worker, hworker, _⟩ := mem_recoverySelection hrow
      rw [List.isEmpty_iff.mp hnone] at hworker
      cases hworker
    rw [recoverOwned, if_pos hnone, hempty]
    rfl
  · rw [recoverOwned, if_neg hnone]
    exact Program.runBody_statement hrecovered

/-- The rows a sweep leaves, in place. -/
theorem sweep_rows (hdb : db.Accepted) :
    (sweep rows queue window clock db).view.jobs.rows =
      db.jobs.rows.map fun row =>
        if row.id ∈ (sweptRows db queue window clock).map JobRow.id then
          recoverRow (clock 1).now .staleSweep row
        else row := by
  rw [sweep_executes hdb, Db.apply_jobs, jobChanges_updateJobs]
  have hkey : ∀ row : JobRow,
      (recoverRow (clock 1).now .staleSweep row).id = row.id := fun _ => rfl
  refine db.jobs.rows_applyChanges_update hkey ?_ ?_
  · intro row hrow
    exact (mem_recoverySelection hrow).1
  · exact db.jobs.keys_nodup_of_subperm (recoverySelection_subperm _ _ _ _ _)

theorem sweep_workers (hdb : db.Accepted) :
    (sweep rows queue window clock db).view.workers = db.workers := by
  rw [sweep_executes hdb, Db.apply_workers, workerChanges_updateJobs]
  rfl

theorem sweep_accepted (hdb : db.Accepted) :
    (sweep rows queue window clock db).view.Accepted := by
  intro row hrow
  rw [sweep_rows hdb] at hrow
  obtain ⟨old, hold, rfl⟩ := List.mem_map.mp hrow
  split
  · exact recoverRow_accepted (hdb old hold)
  · exact hdb old hold

/-- The row a sweep leaves under an id: recovered, or as it was. -/
theorem sweep_get? (hdb : db.Accepted) (id : String) :
    (sweep rows queue window clock db).view.jobs.get? id =
      (db.jobs.get? id).map fun row =>
        if id ∈ (sweptRows db queue window clock).map JobRow.id then
          recoverRow (clock 1).now .staleSweep row
        else row := by
  unfold Table.get?
  rw [sweep_rows hdb, List.find?_map]
  have hids : (fun row : JobRow => decide (row.id = id)) ∘ (fun row : JobRow =>
      if row.id ∈ (sweptRows db queue window clock).map JobRow.id then
        recoverRow (clock 1).now .staleSweep row
      else row) = fun row => decide (row.id = id) := by
    funext row
    simp only [Function.comp_apply]
    split <;> rfl
  rw [hids]
  cases hfound : db.jobs.rows.find? fun row => decide (row.id = id) with
  | none => rfl
  | some row =>
      have hid : row.id = id := by simpa using List.find?_some hfound
      simp [hid]

end

section

variable {db : Db} {queue : String} {window : Duration} {now : Timestamp}
  {clock : Nat → Env}

/-- An undisputed sweep that finds the same workers stale as at `now`. -/
structure SweepsAt (workers : WorkerTable) (queue : String)
    (window : Duration) (now : Timestamp) (clock : Nat → Env) : Prop where
  first : Undisputed (clock 0)
  second : Undisputed (clock 1)
  stale : ∀ worker ∈ workers.rows, worker.workerType = queue →
    staleFor window (clock 0).now worker = staleFor window now worker

theorem SweepsAt.orphaned_eq
    (h : SweepsAt db.workers queue window now clock) :
    orphaned db.workers queue window (clock 0).now =
      orphaned db.workers queue window now := by
  funext row
  have howner : ∀ owner,
      (db.workers.get? (owner, queue)).any (staleFor window (clock 0).now) =
        (db.workers.get? (owner, queue)).any (staleFor window now) := by
    intro owner
    cases hget : db.workers.get? (owner, queue) with
    | none => rw [Option.any_none, Option.any_none]
    | some worker =>
        have hkey := Table.key_of_get? hget
        simp only [WorkerRow.key, Prod.mk.injEq] at hkey
        rw [Option.any_some, Option.any_some]
        exact h.stale worker (Table.mem_of_get? hget) hkey.2
  simp only [orphaned, howner]

theorem orphaned_recoverRow (workers : WorkerTable) (row : JobRow)
    (recovered : Timestamp) :
    orphaned workers queue window now (recoverRow recovered .staleSweep row) =
      false := by
  simp [orphaned, recoverRow]

/-- One sweep takes its rows out of the orphaned ones and adds none. -/
theorem length_orphanedRows_sweep (hdb : db.Accepted)
    (h : SweepsAt db.workers queue window now clock) :
    (orphanedRows (sweep rows queue window clock db).view queue window
        now).length =
      (orphanedRows db queue window now).length -
        reenqueueOrphanedBatchLimit := by
  let swept := sweptRows db queue window clock
  let taken : JobRow → Bool := fun row => decide (row.id ∈ swept.map JobRow.id)
  have horphaned : ∀ row ∈ swept,
      orphaned db.workers queue window now row = true := by
    intro row hrow
    have howned : row ∈ ownedRows db queue
        (sweptWorkers db queue window clock) := by
      have htaken : row ∈ sweptRows db queue window clock := hrow
      rw [sweptRows_eq h.second] at htaken
      exact (List.mem_insertionSort _).mp (List.mem_of_mem_take htaken)
    have hmem := orphaned_of_owned h.first howned
    rw [← h.orphaned_eq]
    exact (List.mem_filter.mp hmem).2
  have hstored : ∀ row ∈ swept, row ∈ db.jobs.rows :=
    fun row hrow => (mem_recoverySelection hrow).1
  have hleft : orphanedRows (sweep rows queue window clock db).view queue
      window now = (orphanedRows db queue window now).filter
        fun row => !taken row := by
    unfold orphanedRows
    rw [sweep_rows hdb, sweep_workers hdb, List.filter_map,
      List.filter_filter]
    have hkept : (orphaned db.workers queue window now ∘ fun row : JobRow =>
        if row.id ∈ (sweptRows db queue window clock).map JobRow.id then
          recoverRow (clock 1).now .staleSweep row
        else row) = fun row => !taken row &&
          orphaned db.workers queue window now row := by
      funext row
      by_cases htaken : row.id ∈ swept.map JobRow.id
      · rw [Function.comp_apply, if_pos htaken, orphaned_recoverRow]
        simp only [taken, decide_eq_true htaken, Bool.not_true, Bool.false_and]
      · rw [Function.comp_apply, if_neg htaken]
        simp only [taken, decide_eq_false htaken, Bool.not_false,
          Bool.true_and]
    rw [hkept]
    refine (List.map_congr_left ?_).trans (List.map_id _)
    intro row hrow
    have htaken := (List.mem_filter.mp hrow).2
    simp only [Bool.and_eq_true, Bool.not_eq_true', taken,
      decide_eq_false_iff_not] at htaken
    exact if_neg htaken.1
  have hgone : ((orphanedRows db queue window now).filter taken).length =
      swept.length := by
    apply List.Perm.length_eq
    have hnodup : swept.Nodup :=
      (db.jobs.keys_nodup_of_subperm
        (recoverySelection_subperm _ _ _ _ _)).of_map
    refine (List.perm_ext_iff_of_nodup (List.filter_sublist.nodup
      (List.filter_sublist.nodup db.jobs.keyed.of_map)) hnodup).mpr ?_
    intro row
    simp only [List.mem_filter, taken, decide_eq_true_eq]
    constructor
    · rintro ⟨⟨hrow, _⟩, hmem⟩
      obtain ⟨other, hother, hid⟩ := List.mem_map.mp hmem
      exact Db.row_unique (hstored other hother) hrow hid ▸ hother
    · intro hrow
      exact ⟨⟨hstored row hrow, horphaned row hrow⟩, List.mem_map_of_mem hrow⟩
  have hcount : swept.length = min reenqueueOrphanedBatchLimit
      (orphanedRows db queue window now).length := by
    have hlength : (sweptRows db queue window clock).length = _ :=
      length_sweptRows h.first h.second
    rw [orphanedRows, h.orphaned_eq] at hlength
    exact hlength
  have hsplit : (orphanedRows db queue window now).length = _ :=
    List.length_eq_length_filter_add taken
  rw [hleft]
  omega

/-- Sweep after sweep, each with its own clock. -/
def sweeps (rows : TaskConversion) (queue : String) (window : Duration) :
    List (Nat → Env) → Db → Db
  | [], db => db
  | clock :: rest, db =>
      sweeps rows queue window rest (sweep rows queue window clock db).view

/-- The row is left as it was, or it was orphaned and is recovered once. -/
def RecoveredOnce (db : Db) (queue : String) (window : Duration)
    (now : Timestamp) (id : String) (after : Option JobRow) : Prop :=
  after = db.jobs.get? id ∨
    ∃ row recovered, db.jobs.get? id = some row ∧
      orphaned db.workers queue window now row = true ∧
      after = some (recoverRow recovered .staleSweep row)

/-- What a run of sweeps leaves, whatever its batches. -/
structure Swept (db : Db) (queue : String) (window : Duration)
    (now : Timestamp) (count : Nat) (after : Db) : Prop where
  accepted : after.Accepted
  workers : after.workers = db.workers
  left : (orphanedRows after queue window now).length =
    (orphanedRows db queue window now).length -
      count * reenqueueOrphanedBatchLimit
  rows : ∀ id, RecoveredOnce db queue window now id (after.jobs.get? id)

/-- A row that one sweep recovered is none of the next one's. -/
theorem sweep_recoveredOnce (hdb : db.Accepted)
    (h : SweepsAt db.workers queue window now clock) (id : String) :
    RecoveredOnce db queue window now id
      ((sweep rows queue window clock db).view.jobs.get? id) := by
  rw [sweep_get? hdb]
  cases hget : db.jobs.get? id with
  | none => exact Or.inl hget.symm
  | some row =>
      by_cases htaken : id ∈ (sweptRows db queue window clock).map JobRow.id
      · have hid : row.id = id := Table.key_of_get? hget
        refine Or.inr ⟨row, (clock 1).now, hget, ?_, by
          rw [Option.map_some, if_pos htaken]⟩
        obtain ⟨other, hother, hsame⟩ := List.mem_map.mp htaken
        have hrow : other = row := Db.row_unique (mem_recoverySelection hother).1
          (Table.mem_of_get? hget) (hsame.trans hid.symm)
        rw [hrow, sweptRows_eq h.second] at hother
        have hmem := orphaned_of_owned h.first
          ((List.mem_insertionSort _).mp (List.mem_of_mem_take hother))
        rw [← h.orphaned_eq]
        exact (List.mem_filter.mp hmem).2
      · left
        rw [hget, Option.map_some, if_neg htaken]

theorem swept_of_sweeps (hdb : db.Accepted) {clocks : List (Nat → Env)}
    (h : ∀ clock ∈ clocks, SweepsAt db.workers queue window now clock) :
    Swept db queue window now clocks.length
      (sweeps rows queue window clocks db) := by
  induction clocks generalizing db with
  | nil => exact ⟨hdb, rfl, by simp [sweeps], fun _ => Or.inl rfl⟩
  | cons clock rest ih =>
      have hclock := h clock List.mem_cons_self
      have hworkers : (sweep rows queue window clock db).view.workers =
        db.workers := sweep_workers hdb
      have hlater := ih (sweep_accepted hdb) (fun other hother =>
        hworkers.symm ▸ h other (List.mem_cons_of_mem _ hother))
      refine ⟨hlater.accepted, hlater.workers.trans hworkers, ?_, ?_⟩
      · have hleft := hlater.left
        rw [length_orphanedRows_sweep hdb hclock] at hleft
        rw [sweeps, hleft, List.length_cons, Nat.add_mul]
        omega
      · intro id
        have hfirst : RecoveredOnce db queue window now id
            ((sweep rows queue window clock db).view.jobs.get? id) :=
          sweep_recoveredOnce hdb hclock id
        rcases hlater.rows id with hsame | ⟨row, recovered, hrow, horphan, hafter⟩
        · rw [sweeps, hsame]
          exact hfirst
        · rcases hfirst with hsame | ⟨old, earlier, _, _, hold⟩
          · exact Or.inr ⟨row, recovered, hsame ▸ hrow,
              hworkers ▸ horphan, hafter⟩
          · rw [hold, Option.some.injEq] at hrow
            rw [← hrow, orphaned_recoverRow] at horphan
            cases horphan

/-- Everything but the completion time. -/
def JobRow.withoutDone (row : JobRow) : JobRow := { row with doneAt := none }

/-- The rows one unbounded recovery would leave. -/
def recoveredAtOnce (db : Db) (queue : String) (window : Duration)
    (now : Timestamp) (row : JobRow) : JobRow :=
  if orphaned db.workers queue window now row then
    recoverRow now .staleSweep row
  else row

/-- What one undisputed sweep does: it recovers as many orphaned rows as its
limit allows and leaves every other row. -/
structure SweptOnce (db : Db) (queue : String) (window : Duration)
    (clock : Nat → Env) (stop : BodyEnd Db Effect Error Outcome)
    (recovered : List JobRow) : Prop where
  count : recovered.length =
    min 1000 (orphanedRows db queue window (clock 0).now).length
  outcome : stop.outcome = .ok (.count recovered.length)
  orphans : recovered.Nodup ∧
    ∀ row ∈ recovered, row ∈ orphanedRows db queue window (clock 0).now
  rewritten : ∀ row ∈ recovered, stop.view.jobs.get? row.id =
    some (recoverRow (clock 1).now .staleSweep row)
  others : ∀ id, id ∉ recovered.map JobRow.id →
    stop.view.jobs.get? id = db.jobs.get? id
  workers : stop.view.workers = db.workers

end

/-- On every stored table, one sweep recovers a full batch of the orphaned
rows or all of them; repeated often enough while the same workers are stale,
sweeps leave none, and the rows they leave are those of one unbounded
recovery. -/
theorem sweep_progress {db : Db} (hdb : db.Accepted) (queue : String)
    (window : Duration) :
    (∀ clock : Nat → Env, Undisputed (clock 0) → Undisputed (clock 1) →
      ∃ recovered, SweptOnce db queue window clock
        (sweep rows queue window clock db) recovered) ∧
    ∀ (now : Timestamp) (clocks : List (Nat → Env)),
      (∀ clock ∈ clocks, SweepsAt db.workers queue window now clock) →
      clocks.length =
        ((orphanedRows db queue window now).length + 999) / 1000 →
      orphanedRows (sweeps rows queue window clocks db) queue window now = [] ∧
        (∀ id, ((sweeps rows queue window clocks db).jobs.get? id).map
            JobRow.withoutDone =
          (db.jobs.get? id).map fun row =>
            (recoveredAtOnce db queue window now row).withoutDone) ∧
        (sweeps rows queue window clocks db).workers = db.workers := by
  constructor
  · intro clock hfirst hsecond
    refine ⟨sweptRows db queue window clock, length_sweptRows hfirst hsecond,
      by rw [sweep_executes hdb], ⟨?_, ?_⟩, ?_, ?_, sweep_workers hdb⟩
    · exact (db.jobs.keys_nodup_of_subperm
        (recoverySelection_subperm _ _ _ _ _)).of_map
    · intro row hrow
      rw [sweptRows_eq hsecond] at hrow
      exact orphaned_of_owned hfirst
        ((List.mem_insertionSort _).mp (List.mem_of_mem_take hrow))
    · intro row hrow
      rw [sweep_get? hdb, Table.get?_of_mem (mem_recoverySelection hrow).1,
        Option.map_some, if_pos (List.mem_map_of_mem hrow)]
    · intro id hid
      rw [sweep_get? hdb]
      simp [hid]
  · intro now clocks hclocks hlength
    have hswept : Swept db queue window now clocks.length
      (sweeps rows queue window clocks db) := swept_of_sweeps hdb hclocks
    have hnone : orphanedRows (sweeps rows queue window clocks db) queue window
        now = [] := by
      apply List.eq_nil_of_length_eq_zero
      rw [hswept.left, hlength, reenqueueOrphanedBatchLimit]
      omega
    refine ⟨hnone, ?_, hswept.workers⟩
    intro id
    rcases hswept.rows id with hsame | ⟨row, recovered, hrow, horphan, hafter⟩
    · rw [hsame]
      cases hget : db.jobs.get? id with
      | none => rfl
      | some row =>
          have hkept : orphaned db.workers queue window now row = false := by
            by_contra horphan
            have hmem : row ∈ orphanedRows
                (sweeps rows queue window clocks db) queue window now := by
              refine List.mem_filter.mpr ⟨Table.mem_of_get?
                (hsame.trans hget), ?_⟩
              rw [hswept.workers]
              simpa using horphan
            rw [hnone] at hmem
            cases hmem
          simp [recoveredAtOnce, hkept]
    · rw [hafter, hrow]
      simp only [Option.map_some, recoveredAtOnce, horphan, if_true]
      rfl

/-- Two claims of a worker that stopped renewing: one sweep, an hour later,
takes both. -/
theorem sweep_progress_stale_worker :
    let late : Nat → Env := fun _ =>
      ⟨3600000000, fun _ => false, fun _ => false, fun _ => true, true⟩
    let window : Duration := 30000000000
    let db := ([
      (⟨.registerWorker "worker" "queue" storageName "" "token" 30,
        quietEnv⟩ : Invocation),
      ⟨.pushTasksOnConn "queue" [sampleTask,
        { sampleTask with id := "7ZZZZZZZZZZZZZZZZZZZZZZZZZ" }], quietEnv⟩,
      ⟨.fetchNext "worker" "queue" 10 (some "token"), quietEnv⟩].foldl
        (System.step TaskConversion.copying) .initial).db
    (orphanedRows db "queue" window (late 0).now).length = 2 ∧
      (∃ recovered, SweptOnce db "queue" window late
        (sweep TaskConversion.copying "queue" window late db) recovered) ∧
      orphanedRows (sweeps TaskConversion.copying "queue" window [late] db)
        "queue" window (late 0).now = [] := by
  intro late window db
  have hdb : db.Accepted := by
    unfold Db.Accepted
    decide +kernel
  have hquiet : Undisputed (late 0) := ⟨fun _ => rfl, fun _ => rfl⟩
  have hcount : (orphanedRows db "queue" window (late 0).now).length = 2 := by
    decide +kernel
  obtain ⟨honce, hrepeated⟩ :=
    @sweep_progress TaskConversion.copying db hdb "queue" window
  refine ⟨hcount, honce late hquiet hquiet,
    (hrepeated (late 0).now [late] ?_ (by rw [hcount]; rfl)).1⟩
  intro clock hclock
  cases List.mem_singleton.mp hclock
  exact ⟨hquiet, hquiet, fun _ _ _ => rfl⟩

end ApalisPostgres
