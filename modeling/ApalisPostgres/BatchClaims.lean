/-
Batch claims over arbitrary tables.  A claim selects due rows, rewrites them,
sorts them again, converts each one and quarantines those that do not
convert.  Whatever mix of good and malformed rows it meets, every selected row
is returned or quarantined, no other row is touched, and the selection is the
front of the queue.
-/
import ApalisPostgres.RowInvariant
import ApalisPostgres.Ulids

namespace ApalisPostgres

open RowStore

variable {rows : RowReader} {spelled : String → Option String}

/-- The transactions that claim a batch of rows. -/
inductive ClaimsBatch (worker queue : String) : Op → Prop where
  | fetchNext {bufferSize : Nat} {token : Option String} :
      ClaimsBatch worker queue (.fetchNext worker queue bufferSize token)
  | queueById {ids : List String} {token : Option String} :
      ClaimsBatch worker queue (.queueById queue ids worker token)

/-- The rows the claim statement of a transaction selects. -/
def claimSelected (env : Env) (db : Db) : Op → List JobRow
  | .fetchNext _ queue bufferSize _ =>
      (claimSelection env db queue fun _ => true).take
        (clampI32 (max bufferSize 1))
  | .queueById queue ids _ _ =>
      claimSelection env db queue fun row => ids.contains row.id
  | _ => []

/-- `left` comes strictly before `right` in `priority DESC, run_at ASC`. -/
def precedes (left right : JobRow) : Prop :=
  right.priority < left.priority ∨
    (right.priority = left.priority ∧ left.runAt < right.runAt)

theorem claimOrder_iff_not_precedes (left right : JobRow) :
    claimOrder left right ↔ ¬ precedes right left := by
  unfold claimOrder precedes
  grind

instance : Std.Total claimOrder where
  total left right := by
    unfold claimOrder
    grind

instance : IsTrans JobRow claimOrder where
  trans left middle right := by
    unfold claimOrder
    grind

/-- The task carries the epoch of the row: the ULID its id spells, the second
of its claim and the executions it completed. -/
def RecordsClaim (spelled : String → Option String) (task : Task)
    (row : JobRow) : Prop :=
  ∃ (id : String) (seconds : Int) (completed : Nat),
    spelled row.id = some id ∧ row.lockAt = some (toTimestamp seconds) ∧
      row.attempts = completed ∧ task.parts.taskId = some id ∧
        task.parts.claim = some ⟨some id, some seconds, completed⟩

/-- The row was isolated: killed, without an owner and within its budget. -/
structure Quarantined (row : JobRow) (after : Option JobRow) : Prop where
  killed : ∃ left, after = some left ∧ left.status = .killed ∧
    left.lockBy = none ∧ left.lockAt = none ∧ left.doneAt.isSome = true ∧
    (∃ message, left.lastResult = some (errResult message)) ∧
    left.attempts = row.attempts + 1 ∧ left.attempts ≤ row.maxAttempts

/-- What the conversion of claimed rows comes to: the tasks of the rows that
convert, in their order; these rows stay, the others are quarantined. -/
structure Isolated (rows : RowReader) (claimed : List JobRow)
    (before : Db) (tasks : List Task) (after : Db) : Prop where
  tasks_eq : tasks =
    claimed.filterMap fun row => (claimedTaskRow rows row).toOption
  kept : ∀ row ∈ claimed, ∀ task, claimedTaskRow rows row = .ok task →
    after.jobs.get? row.id = some row
  isolated : ∀ row ∈ claimed, ∀ error, claimedTaskRow rows row = .error error →
    ∃ now message, after.jobs.get? row.id =
      some (quarantineRow now (errResult message) row)
  others : ∀ id, id ∉ claimed.map JobRow.id →
    after.jobs.get? id = before.jobs.get? id
  workers : after.workers = before.workers

/-- A quarantine rewrites the row of its id and no other. -/
theorem exec_quarantine {env : Env} {view : Db} {row : JobRow} {result : Json}
    {count : Nat} {changes : List Effect}
    (h : (Stmt.quarantine row.id result).exec env view = .ok (count, changes))
    (hrow : view.jobs.get? row.id = some row) :
    (view.apply changes).jobs.get? row.id =
        some (quarantineRow env.now result row) ∧
      (∀ id, id ≠ row.id →
        (view.apply changes).jobs.get? id = view.jobs.get? id) ∧
      (view.apply changes).workers = view.workers := by
  have hplan := (exec_ok h).1
  simp only [Stmt.plan, Except.ok.injEq, Prod.mk.injEq] at hplan
  have hupdated := get?_updated h hplan.2.symm
  refine ⟨?_, ?_, ?_⟩
  · rw [hupdated, hrow]
    simp
  · intro id hid
    rw [hupdated]
    cases hget : view.jobs.get? id with
    | none => rfl
    | some other =>
        have hother : other.id = id := Table.key_of_get? hget
        simp [hother, hid]
  · apply (exec_executed h).workers_eq
    intro change hstep
    cases hstep

theorem claimedTasks_isolates {claimed : List JobRow} {view : Db}
    (hstored : ∀ row ∈ claimed, view.jobs.get? row.id = some row)
    (hnodup : (claimed.map JobRow.id).Nodup) :
    (claimedTasks rows claimed).Issues sql (fun _ _ => True)
      (Isolated rows claimed view) view := by
  induction claimed generalizing view with
  | nil =>
      exact ⟨rfl, by simp, by simp, fun _ _ => rfl, rfl⟩
  | cons row rest ih =>
      rw [List.map_cons, List.nodup_cons] at hnodup
      have hrest : ∀ other ∈ rest, view.jobs.get? other.id = some other :=
        fun other hother => hstored other (List.mem_cons_of_mem _ hother)
      have hrow := hstored row List.mem_cons_self
      unfold claimedTasks
      cases hconvert : rows.tryIntoTaskCompact row with
      | ok task =>
          have hok : claimedTaskRow rows row =
              .ok { task with parts := recordClaim task.parts } := by
            simp [claimedTaskRow, taskRow, hconvert]
          apply Program.issues_bind
          apply (ih hrest hnodup.2).mono
          intro tasks after hisolated
          refine ⟨?_, ?_, ?_, ?_, hisolated.workers⟩
          · simp [hok, hisolated.tasks_eq, Except.toOption]
          · intro other hother found hfound
            rcases List.mem_cons.mp hother with rfl | hother
            · rw [hisolated.others other.id hnodup.1]
              exact hrow
            · exact hisolated.kept other hother found hfound
          · intro other hother error herror
            rcases List.mem_cons.mp hother with rfl | hother
            · cases hok.symm.trans herror
            · exact hisolated.isolated other hother error herror
          · intro id hid
            rw [List.map_cons, List.mem_cons, not_or] at hid
            exact hisolated.others id hid.2
      | error message =>
          have herror : claimedTaskRow rows row = .error (.row message) := by
            simp [claimedTaskRow, taskRow, hconvert]
          refine ⟨trivial, ?_⟩
          intro env count changes hexec
          obtain ⟨hkilled, hothers, hworkers⟩ := exec_quarantine hexec hrow
          have hrest' : ∀ other ∈ rest,
              (view.apply changes).jobs.get? other.id = some other := by
            intro other hother
            have hne : other.id ≠ row.id := fun heq =>
              hnodup.1 (heq ▸ List.mem_map_of_mem hother)
            exact (hothers other.id hne).trans (hrest other hother)
          apply (ih hrest' hnodup.2).mono
          intro tasks after hisolated
          refine ⟨?_, ?_, ?_, ?_, hisolated.workers.trans hworkers⟩
          · simp [herror, hisolated.tasks_eq, Except.toOption]
          · intro other hother found hfound
            rcases List.mem_cons.mp hother with rfl | hother
            · cases herror.symm.trans hfound
            · exact hisolated.kept other hother found hfound
          · intro other hother refused hrefused
            rcases List.mem_cons.mp hother with rfl | hother
            · rw [hisolated.others other.id hnodup.1]
              exact ⟨env.now, _, hkilled⟩
            · exact hisolated.isolated other hother refused hrefused
          · intro id hid
            rw [List.map_cons, List.mem_cons, not_or] at hid
            rw [hisolated.others id hid.2, hothers id hid.1]

/-- The rows whose tasks were returned, in the order of the tasks. -/
theorem returned_rows {related : Task → JobRow → Prop} {claimed : List JobRow}
    (h : ∀ row ∈ claimed, ∀ task, claimedTaskRow rows row = .ok task →
      related task row) :
    ∃ returned : List JobRow, returned.Sublist claimed ∧
      List.Forall₂ related (claimed.filterMap fun row =>
        (claimedTaskRow rows row).toOption) returned := by
  induction claimed with
  | nil => exact ⟨[], .refl _, .nil⟩
  | cons row rest ih =>
      obtain ⟨returned, hsub, hrelated⟩ := ih fun other hother =>
        h other (List.mem_cons_of_mem _ hother)
      cases hconvert : claimedTaskRow rows row with
      | error error =>
          refine ⟨returned, hsub.cons row, ?_⟩
          simpa [hconvert, Except.toOption] using hrelated
      | ok task =>
          refine ⟨row :: returned, hsub.cons_cons row, ?_⟩
          have hhead := h row List.mem_cons_self task hconvert
          simpa [hconvert, Except.toOption] using
            List.Forall₂.cons hhead hrelated

/-- What a committed batch claim leaves of the rows it selected and of every
other row. -/
structure BatchClaimed (spelled : String → Option String) (db : Db)
    (now : Timestamp) (worker : String) (selected : List JobRow)
    (tasks : List Task) (after : Db) : Prop where
  settled : ∀ row ∈ selected,
    (∃ task ∈ tasks, RecordsClaim spelled task (claimRow worker now row) ∧
      after.jobs.get? row.id = some (claimRow worker now row)) ∨
    Quarantined row (after.jobs.get? row.id)
  ordered : ∃ returned : List JobRow,
    List.Forall₂ (RecordsClaim spelled) tasks returned ∧
      returned.Pairwise claimOrder ∧ (returned.map JobRow.id).Nodup ∧
      ∀ row ∈ returned, ∃ old ∈ selected, row = claimRow worker now old
  others : ∀ id, id ∉ selected.map JobRow.id →
    after.jobs.get? id = db.jobs.get? id
  workers : after.workers = db.workers

section

variable {db : Db} {env : Env} {worker queue : String}

theorem batchClaimed_of_isolated (hreads : rows.ReadsIds spelled)
    {stmt : Stmt} {result : stmt.Result}
    {edge : JobEdge} {selected : List JobRow} {tasks : List Task} {after : Db}
    (hsub : selected.Subperm db.jobs.rows)
    (hdue : ∀ row ∈ selected, DueRow db env queue row)
    (hexec : stmt.exec env db = .ok (result,
      updateJobs edge (claimRow worker env.now) selected))
    (hisolated : Isolated rows (claimedRows worker env.now selected)
      (db.apply (updateJobs edge (claimRow worker env.now) selected)) tasks
      after) :
    BatchClaimed spelled db env.now worker selected tasks after := by
  have hexecuted := exec_executed hexec
  have hclaimed : ∀ {row}, row ∈ selected →
      claimRow worker env.now row ∈ claimedRows worker env.now selected :=
    fun hrow => (List.mem_insertionSort _).mpr (List.mem_map_of_mem hrow)
  -- the schema accepted the claimed row, so its count is one of executions
  have hrecords : ∀ row ∈ claimedRows worker env.now selected, ∀ task,
      claimedTaskRow rows row = .ok task → RecordsClaim spelled task row := by
    intro row hrow task htask
    obtain ⟨old, hold, rfl⟩ :=
      List.mem_map.mp ((List.mem_insertionSort _).mp hrow)
    have hchange : (⟨old.id, edge, some old,
        some (claimRow worker env.now old)⟩ : JobChange) ∈
        jobChanges (updateJobs edge (claimRow worker env.now) selected) := by
      rw [jobChanges_updateJobs]
      exact mem_updateChanges.mpr ⟨old, hold, rfl⟩
    have hnonneg := (attempts_of_accepted
      (hexecuted.row_accepted hchange rfl).1).1
    obtain ⟨seconds, hseconds⟩ := truncSecond_eq env.now
    have hlockAt : (claimRow worker env.now old).lockAt =
        some (toTimestamp seconds) := congrArg some hseconds
    obtain ⟨id, hspelled, hclaim⟩ := claimedTaskRow_reads hreads htask
    refine ⟨id, seconds, (claimRow worker env.now old).attempts.toNat,
      hspelled, hlockAt, by omega, hclaim.copies.taskId, ?_⟩
    rw [hclaim.claim, hlockAt, Option.map_some, unixSeconds_toTimestamp]
  refine ⟨?_, ?_, ?_, ?_⟩
  · intro row hrow
    cases hconvert : claimedTaskRow rows (claimRow worker env.now row) with
    | ok task =>
        refine Or.inl ⟨task, ?_, hrecords _ (hclaimed hrow) task hconvert,
          hisolated.kept _ (hclaimed hrow) task hconvert⟩
        rw [hisolated.tasks_eq]
        exact List.mem_filterMap.mpr ⟨_, hclaimed hrow, by
          simp [hconvert, Except.toOption]⟩
    | error error =>
        obtain ⟨now, message, hkilled⟩ :=
          hisolated.isolated _ (hclaimed hrow) error hconvert
        have hbudget := ((claimable_iff row).mp (hdue row hrow).claimable).2
        refine Or.inr ⟨_, hkilled, rfl, rfl, rfl, rfl, ⟨message, rfl⟩, ?_, ?_⟩
        · simp only [quarantineRow, boundedIncrement, claimRow]
          omega
        · simp only [quarantineRow, boundedIncrement, claimRow]
          omega
  · obtain ⟨returned, hreturned, hrelated⟩ := returned_rows hrecords
    refine ⟨returned, hisolated.tasks_eq ▸ hrelated,
      (List.pairwise_insertionSort claimOrder _).sublist hreturned,
      (claimedRows_ids_nodup hsub).sublist (hreturned.map _), ?_⟩
    intro row hrow
    obtain ⟨old, hold, rfl⟩ :=
      List.mem_map.mp ((List.mem_insertionSort _).mp (hreturned.subset hrow))
    exact ⟨old, hold, rfl⟩
  · intro id hid
    rw [hisolated.others id]
    · rcases hexecuted.job_cases id with ⟨change, hmem, hkey, _⟩ | ⟨_, hsame⟩
      · obtain ⟨row, hrow, heq⟩ := mem_updateJobs (mem_jobChanges.mp hmem)
        cases heq
        exact absurd (hkey ▸ List.mem_map_of_mem hrow) hid
      · exact hsame
    · intro hmem
      obtain ⟨row, hrow, rfl⟩ := List.mem_map.mp hmem
      obtain ⟨old, hold, rfl⟩ :=
        List.mem_map.mp ((List.mem_insertionSort _).mp hrow)
      exact hid (List.mem_map.mpr ⟨old, hold, rfl⟩)
  · rw [hisolated.workers, Db.apply_workers, workerChanges_updateJobs]
    rfl

/-- A claim transaction that committed passed its check and ran its claim. -/
theorem claim_committed {token : Option String} {label : String} {stmt : Stmt}
    {next : stmt.Result → Tx (List Task)} {clock : Nat → Env}
    {tasks : List Task}
    (h : ((do requireWorker worker queue token
              let claimed ← query label stmt
              next claimed : Tx (List Task)).runBody sql clock 0 db
                []).outcome = .ok tasks) :
    ∃ result changes, stmt.exec (clock 1) db = .ok (result, changes) ∧
      (do requireWorker worker queue token
          let claimed ← query label stmt
          next claimed : Tx (List Task)).runBody sql clock 0 db [] =
        (next result).runBody sql clock 2 (db.apply changes) changes := by
  let rest : Tx (List Task) := .statement label stmt next
  have hchecked : (requireWorker worker queue token >>= fun _ => rest).runBody
      sql clock 0 db [] = rest.runBody sql clock 1 db [] := by
    obtain ⟨registration, changes, hexec, hran⟩ :=
      Program.runBody_statement_ok h
    have hnil : changes = [] := readOnly_exec rfl hexec
    subst hnil
    have hpassed := (congrArg BodyEnd.outcome hran).symm.trans h
    refine hran.trans ?_
    cases token with
    | none => rfl
    | some presented =>
        cases registration with
        | current => rfl
        | absent | replaced => cases hpassed
  have hrest : (rest.runBody sql clock 1 db []).outcome = .ok tasks :=
    hchecked ▸ h
  obtain ⟨result, changes, hexec, hran⟩ := Program.runBody_statement_ok hrest
  exact ⟨result, changes, hexec, hchecked.trans hran⟩

/-- The claimed rows are stored as they were returned, each once. -/
theorem claimedTasks_of_claim {stmt : Stmt} {result : stmt.Result}
    {edge : JobEdge} {selected : List JobRow}
    (hsub : selected.Subperm db.jobs.rows)
    (hexec : stmt.exec env db = .ok (result,
      updateJobs edge (claimRow worker env.now) selected)) :
    (claimedTasks rows (claimedRows worker env.now selected)).Issues sql
      (fun _ _ => True)
      (Isolated rows (claimedRows worker env.now selected)
        (db.apply (updateJobs edge (claimRow worker env.now) selected)))
      (db.apply (updateJobs edge (claimRow worker env.now) selected)) := by
  apply claimedTasks_isolates _ (claimedRows_ids_nodup hsub)
  intro row hrow
  obtain ⟨old, hold, rfl⟩ :=
    List.mem_map.mp ((List.mem_insertionSort _).mp hrow)
  have hget := (exec_executed hexec).get?_updated hold
  exact hget

/-- The claim transactions differ in their claim statement alone. -/
theorem batchClaimed_of_commit (hreads : rows.ReadsIds spelled)
    {token : Option String} {label : String} {stmt : Stmt} {next : stmt.Result → Tx (List Task)} {clock : Nat → Env}
    {tasks : List Task} {selected : List JobRow} {edge : JobEdge}
    {result : stmt.Result} (hsub : selected.Subperm db.jobs.rows)
    (hdue : ∀ row ∈ selected, DueRow db (clock 1) queue row)
    (hplan : stmt.plan (clock 1) db = .ok (result,
      updateJobs edge (claimRow worker (clock 1).now) selected))
    (hnext : next result =
      claimedTasks rows (claimedRows worker (clock 1).now selected))
    (hcommit : ((do requireWorker worker queue token
                    let claimed ← query label stmt
                    next claimed : Tx (List Task)).runBody sql clock 0 db
                      []).outcome = .ok tasks) :
    BatchClaimed spelled db (clock 1).now worker selected tasks
      ((do requireWorker worker queue token
           let claimed ← query label stmt
           next claimed : Tx (List Task)).runBody sql clock 0 db []).view := by
  obtain ⟨found, changes, hexec, hran⟩ := claim_committed hcommit
  have hsame := (exec_ok hexec).1
  rw [hplan, Except.ok.injEq, Prod.mk.injEq] at hsame
  obtain ⟨rfl, rfl⟩ := hsame
  rw [hran, hnext] at hcommit ⊢
  exact batchClaimed_of_isolated hreads hsub hdue hexec
    ((claimedTasks_of_claim hsub hexec).runBody clock 2 hcommit)

end

/-- Whatever rows it meets, a batch claim that commits returns every row it
selected, under the ULID that its id spells, or quarantines it, and touches no
other; a poll selects at most its buffer, and leaves no free row that comes
before one it selected. -/
theorem batch_claim_strands_nothing (hreads : rows.ReadsIds spelled)
    {worker queue : String} {op : Op}
    (hop : ClaimsBatch worker queue op) (db : Db) (clock : Nat → Env)
    {tasks : List Task}
    (hcommit : ((program rows op).execute sql clock db).outcome =
      .ok (.tasks tasks)) :
    BatchClaimed spelled db (clock 1).now worker
        (claimSelected (clock 1) db op) tasks
        ((program rows op).execute sql clock db).view ∧
      ∀ bufferSize token, op = .fetchNext worker queue bufferSize token →
        (claimSelected (clock 1) db op).length ≤ max bufferSize 1 ∧
        ∀ row ∈ db.jobs.rows,
          dueForClaim queue (clock 1).now row = true →
          (clock 1).jobLocked row.id = false →
          row ∉ claimSelected (clock 1) db op →
          ∀ chosen ∈ claimSelected (clock 1) db op, ¬ precedes row chosen := by
  cases hop with
  | @fetchNext bufferSize token =>
      let due := claimSelection (clock 1) db queue fun _ => true
      let limit := clampI32 (max bufferSize 1)
      have hsub : (due.take limit).Subperm db.jobs.rows :=
        (List.take_sublist _ _).subperm.trans (claimSelection_subperm _ _ _ _)
      have hdue : ∀ row ∈ due.take limit, DueRow db (clock 1) queue row :=
        fun row hrow => (mem_claimSelection (List.mem_of_mem_take hrow)).1
      constructor
      · obtain ⟨found, hbody, hfound, hview⟩ := Program.execute_map_ok hcommit
        cases hfound
        have hsettled := batchClaimed_of_commit hreads hsub hdue rfl rfl hbody
        exact hview ▸ hsettled
      · intro size presented heq
        cases heq
        constructor
        · have hle : (due.take limit).length ≤ limit := List.length_take_le _ _
          have hlimit : limit ≤ max bufferSize 1 := Nat.min_le_left _ _
          exact hle.trans hlimit
        · intro row hrow hclaimable hunlocked hleft chosen hchosen
          rw [← claimOrder_iff_not_precedes]
          have hmem : row ∈ due :=
            mem_claimSelection_iff.mpr ⟨hrow, hclaimable, rfl, hunlocked⟩
          have hdrop : row ∈ due.drop limit := by
            rw [← List.take_append_drop limit due] at hmem
            exact (List.mem_append.mp hmem).resolve_left hleft
          exact (List.pairwise_insertionSort claimOrder
            _).rel_of_mem_take_of_mem_drop hchosen hdrop
  | @queueById ids token =>
      let due := claimSelection (clock 1) db queue
        fun row => ids.contains row.id
      have hsub : due.Subperm db.jobs.rows := claimSelection_subperm _ _ _ _
      have hdue : ∀ row ∈ due, DueRow db (clock 1) queue row :=
        fun row hrow => (mem_claimSelection hrow).1
      constructor
      · obtain ⟨found, hbody, hfound, hview⟩ := Program.execute_map_ok hcommit
        cases hfound
        have hsettled := batchClaimed_of_commit hreads hsub hdue rfl rfl hbody
        exact hview ▸ hsettled
      · intro size presented heq
        cases heq

/-- The tasks a call handed back. -/
def returnedTasks : Except Error Outcome → Option (List Task)
  | .ok (.tasks tasks) => some tasks
  | _ => none

theorem returnedTasks_eq_some {outcome : Except Error Outcome}
    {tasks : List Task} :
    returnedTasks outcome = some tasks ↔ outcome = .ok (.tasks tasks) := by
  unfold returnedTasks
  split
  · simp
  · rename_i hnot
    simp only [reduceCtorEq, false_iff]
    exact hnot tasks

/-- The reader that parses the ids of its rows as ULIDs. -/
def RowReader.ulids : RowReader where
  tryIntoTaskCompact row :=
    match Ulid.spelled row.id with
    | some id =>
        TaskConversion.copying.tryIntoTaskCompact { row with id := id }
    | none => .error "invalid task id"

theorem RowReader.ulids_readsIds : RowReader.ulids.ReadsIds Ulid.spelled := by
  intro row task h
  unfold RowReader.ulids at h
  cases hspelled : Ulid.spelled row.id with
  | none => simp [hspelled] at h
  | some id =>
      simp only [hspelled] at h
      exact ⟨id, rfl, TaskConversion.copying.copies h⟩

/-- The queue of a registered worker with some rows in it. -/
def claimableDb (batch : List NewJob) : Db :=
  ([(⟨.registerWorker "worker" "queue" storageName "" "token" 30,
      quietEnv⟩ : Invocation),
    ⟨.pushTasksOnConn "queue" batch, quietEnv⟩].foldl
      (System.step TaskConversion.copying) .initial).db

/-- A poll of three rows takes two of them: one is returned, one is malformed
and quarantined, and the row of the lowest priority stays. -/
theorem batch_claim_strands_nothing_malformed :
    let last := "01ARZ3NDEKTSV4RRFFQ69G5FB0"
    let db := claimableDb [{ sampleTask with id := last },
      { sampleTask with priority := 1 },
      { sampleTask with id := "malformed", priority := 2 }]
    let claim : Op := .fetchNext "worker" "queue" 2 (some "token")
    let task : Task := ⟨[], recordClaim
      ⟨some sampleId, ⟨2, some 1, some "worker", some "queue"⟩, 0, none⟩⟩
    let after := ((program .ulids claim).execute sql quietEnv db).view
    (after.jobs.rows.map fun row => (row.id, row.status)) =
        [(last, .pending), (sampleId, .queued), ("malformed", .killed)] ∧
      BatchClaimed Ulid.spelled db (quietEnv 1).now "worker"
        (claimSelected (quietEnv 1) db claim) [task] after := by
  intro last db claim task after
  have hcommit : returnedTasks ((program .ulids claim).execute sql quietEnv
      db).outcome = some [task] := by decide +kernel
  exact ⟨by decide +kernel, (batch_claim_strands_nothing
    RowReader.ulids_readsIds .fetchNext db quietEnv
    (returnedTasks_eq_some.mp hcommit)).1⟩

/-- A row with a ULID in lower case is returned under the text the ULID
prints, which is not the id of the row. -/
theorem lower_case_id_renamed :
    ¬ ∀ (op : Op) (db : Db) (clock : Nat → Env) (tasks : List Task),
      ClaimsBatch "worker" "queue" op →
      ((program .ulids op).execute sql clock db).outcome =
        .ok (.tasks tasks) →
      BatchClaimed some db (clock 1).now "worker"
        (claimSelected (clock 1) db op) tasks
        ((program .ulids op).execute sql clock db).view := by
  intro hall
  let lower := "01arz3ndektsv4rrffq69g5fav"
  let db := claimableDb [{ sampleTask with id := lower }]
  let claim : Op := .fetchNext "worker" "queue" 2 (some "token")
  let task : Task := ⟨[], recordClaim
    ⟨some sampleId, ⟨2, some 1, some "worker", some "queue"⟩, 0, none⟩⟩
  have hcommit : returnedTasks ((program .ulids claim).execute sql quietEnv
      db).outcome = some [task] := by decide +kernel
  have hselected : (claimSelected (quietEnv 1) db claim).map JobRow.id =
      [lower] := by decide +kernel
  have hstored : (((program .ulids claim).execute sql quietEnv db).view.jobs.get?
      lower).map JobRow.status = some .queued := by decide +kernel
  have hclaimed := hall claim db quietEnv [task] .fetchNext
    (returnedTasks_eq_some.mp hcommit)
  obtain ⟨row, hrow, hid⟩ := List.mem_map.mp
    (hselected ▸ List.mem_singleton_self lower)
  rcases hclaimed.settled row hrow with ⟨found, hfound, hrecords, _⟩ | hkilled
  · obtain ⟨id, _, _, hsame, _, _, htaskId, _⟩ := hrecords
    cases List.mem_singleton.mp hfound
    have hrenamed : some row.id = some sampleId := hsame.trans htaskId.symm
    rw [hid] at hrenamed
    exact absurd hrenamed (by decide)
  · obtain ⟨left, hleft, hstatus, _⟩ := hkilled.killed
    rw [hid] at hleft
    rw [hleft, Option.map_some, hstatus] at hstored
    cases hstored

end ApalisPostgres
