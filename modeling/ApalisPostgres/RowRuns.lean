/-
Well-formed rows over whole runs.  The one status computed outside the
database comes from the budget an acknowledgement carries; parts returned by
a claim carry the row's own budget for as long as the row lives.
-/
import ApalisPostgres.ReturnedParts

namespace ApalisPostgres

open RowStore

/-- An enqueued budget and priority the columns accept. -/
structure NewJob.Admissible (task : NewJob) : Prop where
  maxAttempts_pos : 0 < task.maxAttempts
  maxAttempts_le : task.maxAttempts ≤ i32Max
  priority_nonneg : 0 ≤ task.priority
  priority_le : task.priority ≤ i32Max

theorem NewJob.Admissible.accepted {task : NewJob} (h : task.Admissible)
    (queue : String) : rowViolation (task.row queue) = none := by
  refine rowViolation_eq_none ⟨h.maxAttempts_pos, h.maxAttempts_le,
    h.priority_nonneg, h.priority_le⟩ Int.le_rfl ?_ ?_ ?_
  · exact Int.le_of_lt h.maxAttempts_pos
  · intro hactive
    cases hactive
  · intro _
    exact ⟨rfl, rfl⟩

/-- What callers promise: enqueued columns in range, and acknowledgements with
the parts of a claim, or with manual parts that name the row's budget. -/
def BudgetPromised (system : System) : Op → Prop
  | .pushTasksOnConn _ batch => ∀ task ∈ batch, task.Admissible
  | .acknowledge _ _ parts =>
      Returned system.commits parts ∨
        (parts.claim = none ∧ CarriesBudget system.db parts)
  | _ => True

/-- The rows of a view inside a transaction: of the lineage of the rows it
started from, and well formed. -/
structure RowsSince (origin : Db) (op : Op) (view : Db)
    (effects : List Effect) : Prop extends
    Lineage origin op view effects where
  wellFormed : ∀ row ∈ view.jobs.rows, row.WellFormed

section

variable {origin : Db} {op : Op} {view : Db} {effects : List Effect}
  {env : Env} {stmt : Stmt}

theorem calculateStatus_failed {maxAttempts : Int} {attempts : Nat}
    {res : HandlerResult} (h : calculateStatus maxAttempts attempts res = .failed) :
    (attempts : Int) < maxAttempts := by
  unfold calculateStatus at h
  split at h
  · cases h
  · split at h
    · rename_i hbudget
      exact hbudget.2
    · cases h

/-- An acknowledgement whose parts carry the row's budget leaves a failed row
with budget. -/
theorem RowsSince.ackFits (h : RowsSince origin op view effects)
    (hissued : Issued view op stmt)
    (hparts : ∀ token res parts, op = .acknowledge token res parts →
      CarriesBudget origin parts) : AckFits view stmt := by
  rintro update row rfl hrow hepoch hstatus
  cases hissued with
  | read hread => simp [Stmt.readOnly] at hread
  | @ackTask token res parts _ hupdate _ =>
      obtain ⟨_, hid, _, _, _, _⟩ := acknowledgeable_iff.mp hepoch
      rcases h.lineage row hrow with ⟨old, hold, hsame, hmax⟩ |
        ⟨change, hmem, htag, _⟩
      · have hcarried := hparts token res parts rfl old hold
          (by rw [hupdate.taskId, hsame, hid])
        have hbudget := calculateStatus_failed (hupdate.status ▸ hstatus)
        have hnonneg := hupdate.attempts
        omega
      · obtain ⟨queue, batch, hop⟩ := h.enqueues change hmem htag
        cases hop

theorem RowsSince.step {changes : List Effect}
    (h : RowsSince origin op view effects) (hissued : Issued view op stmt)
    (hparts : ∀ token res parts, op = .acknowledge token res parts →
      CarriesBudget origin parts)
    (hexec : Executed env view stmt changes) :
    RowsSince origin op (view.apply changes) (effects ++ changes) := by
  refine ⟨h.toLineage.step hissued hexec, ?_⟩
  intro row hrow
  rcases hexec.row_cases hrow with ⟨change, hmem, hafter⟩ | ⟨hold, _⟩
  · exact (hexec.jobStep hmem).wellFormed hissued (h.ackFits hissued hparts)
      h.wellFormed hafter
      (storable_of_accepted (hexec.row_accepted hmem hafter).1).maxAttempts_pos
  · exact h.wellFormed row hold

/-- Why an enqueue fails: a task violates a check of its columns, or its id is
stored. -/
theorem insertedRows_error {queue : String} {batch : List NewJob}
    {jobs : JobTable} {fault : DieselError}
    (h : insertedRows queue jobs batch = .error fault) :
    fault = Constraint.jobsPkey.fault ∨
      ∃ task ∈ batch, ∃ violated, rowViolation (task.row queue) =
        some violated ∧ fault = violated.fault := by
  induction batch generalizing jobs with
  | nil => simp [insertedRows] at h
  | cons task rest ih =>
      have hlater {later : JobTable}
          (hrest : insertedRows queue later rest = .error fault) :
          fault = Constraint.jobsPkey.fault ∨
            ∃ other ∈ task :: rest, ∃ violated,
              rowViolation (other.row queue) = some violated ∧
                fault = violated.fault := by
        rcases ih hrest with hpkey | ⟨other, hother, hviolated⟩
        · exact Or.inl hpkey
        · exact Or.inr ⟨other, List.mem_cons_of_mem _ hother, hviolated⟩
      unfold insertedRows at h
      split at h
      · rename_i violated hviolated
        exact Or.inr ⟨task, List.mem_cons_self, violated, hviolated,
          (Except.error.inj h).symm⟩
      split at h
      · exact hlater h
      · split at h
        · exact Or.inl (Except.error.inj h).symm
        · cases hrest : insertedRows queue (jobs.put (task.row queue)) rest with
          | error refused =>
              simp only [hrest, bind, Except.bind, Except.error.injEq] at h
              exact hlater (hrest.trans (congrArg _ h))
          | ok tail =>
              simp [hrest, bind, Except.bind, pure, Except.pure] at h

/-- Only an enqueue stops before it writes. -/
theorem plan_error {fault : DieselError}
    (h : stmt.plan env view = .error fault) :
    fault = Constraint.jobsPkey.fault ∨
      ∃ queue batch task violated, stmt = .insertJobs queue batch ∧
        task ∈ batch ∧ rowViolation (task.row queue) = some violated ∧
        fault = violated.fault := by
  cases stmt with
  | insertJobs queue batch =>
      cases hins : insertedRows queue view.jobs batch with
      | error refused =>
          simp only [Stmt.plan, hins, bind, Except.bind,
            Except.error.injEq] at h
          subst h
          rcases insertedRows_error hins with
            hpkey | ⟨task, htask, violated, hviolated, hfault⟩
          · exact Or.inl hpkey
          · exact Or.inr ⟨queue, batch, task, violated, rfl, htask, hviolated,
              hfault⟩
      | ok inserted => simp [Stmt.plan, hins, bind, Except.bind, pure,
          Except.pure] at h
  | markReleased worker queue =>
      simp only [Stmt.plan] at h
      split at h <;> cases h
  | keepAlive worker queue token =>
      simp only [Stmt.plan] at h
      split at h
      · cases h
      · split at h <;> cases h
  | _ => cases h

/-- No registration that is deleted is referenced, and no other write of a
registration can be refused. -/
theorem prune_accepted {result : stmt.Result} {planned : List Effect}
    {change : WorkerChange}
    (hplan : stmt.plan env view = .ok (result, planned))
    (hstep : WorkerStep env view stmt change) :
    effectViolation (view.apply planned) (.worker change) = none := by
  cases hstep with
  | register | heartbeat _ _ | release _ | admin => rfl
  | prune _ _ _ hfree =>
      have hjobs : (view.apply planned).jobs = view.jobs := by
        apply Db.apply_jobs_eq
        intro other hother
        have hjob : JobStep env view _ other := plan_step hplan _ hother
        cases hjob
      simp only [referenced] at hfree
      simp [effectViolation, referenced, hjobs, hfree]

theorem RowsSince.storable {change : JobChange} {row : JobRow}
    (h : RowsSince origin op view effects) (hissued : Issued view op stmt)
    (hbatch : ∀ queue batch, op = .pushTasksOnConn queue batch →
      ∀ task ∈ batch, task.Admissible)
    (hstep : JobStep env view stmt change)
    (hafter : change.after = some row) : row.Storable := by
  cases hbefore : change.before with
  | some old =>
      obtain ⟨_, _, hmax, hpriority⟩ := hstep.fixed_columns hbefore hafter
      have hstored : old ∈ view.jobs.rows := Table.mem_of_get?
        (hstep.reads.before_eq.symm.trans hbefore)
      have hold := h.budgeted.storable old hstored
      exact ⟨hmax ▸ hold.maxAttempts_pos, hmax ▸ hold.maxAttempts_le,
        hpriority ▸ hold.priority_nonneg, hpriority ▸ hold.priority_le⟩
  | none =>
      cases hstep with
      | enqueue htask _ =>
          cases hafter
          cases hissued with
          | read hread => simp [Stmt.readOnly] at hread
          | insertJobs =>
              have hadmissible := hbatch _ _ rfl _ htask
              exact ⟨hadmissible.maxAttempts_pos, hadmissible.maxAttempts_le,
                hadmissible.priority_nonneg, hadmissible.priority_le⟩
      | pollClaim _ | notifyClaim _ _ | compatibilityClaim _ | quarantine _
      | lock _ _ _ | undecodable _ _ | start _ _ _ _ | acknowledge _ _
      | recovery _ _ _ _ _ | purge _ _ _ _ => cases hbefore

/-- The owner a token-bound operation writes is registered. -/
theorem RowsSince.owner_registered {change : JobChange} {row : JobRow}
    {result : stmt.Result} {planned : List Effect}
    (h : RowsSince origin op view effects) (hissued : Issued view op stmt)
    (hbound : TokenBound op)
    (hplan : stmt.plan env view = .ok (result, planned))
    (hstep : JobStep env view stmt change)
    (hafter : change.after = some row) :
    ownerRegistered (view.apply planned) row = true := by
  have hworkers : (view.apply planned).workers = view.workers := by
    apply Db.apply_workers_eq
    intro other hother
    have hworker : WorkerStep env view stmt other := plan_step hplan _ hother
    cases hworker <;> cases hstep
  have hkept : ∀ old ∈ view.jobs.rows, row.lockBy = old.lockBy →
      row.jobType = old.jobType →
      ownerRegistered (view.apply planned) row = true := by
    intro old hold hlockBy hjobType
    rw [ownerRegistered_iff, hlockBy, hjobType, hworkers]
    exact ownerRegistered_iff.mp (h.budgeted.owners old hold)
  have hclaimed : ∀ worker token, row.lockBy = some worker →
      token.isSome = true → Holds view worker row.jobType token →
      ownerRegistered (view.apply planned) row = true := by
    intro worker token hlockBy htoken hholds
    rw [ownerRegistered_iff, hlockBy, hworkers]
    intro other heq
    cases heq
    obtain ⟨presented, hpresented⟩ := Option.isSome_iff_exists.mp htoken
    obtain ⟨owner, howner, _⟩ := hholds presented hpresented
    exact ⟨owner, howner⟩
  have hfree : row.lockBy = none →
      ownerRegistered (view.apply planned) row = true := by
    intro hnone
    rw [ownerRegistered_iff, hnone]
    intro worker heq
    cases heq
  cases hstep with
  | enqueue _ _ =>
      cases hafter
      exact hfree rfl
  | pollClaim hdue =>
      cases hafter
      cases hissued with
      | read hread => simp [Stmt.readOnly] at hread
      | fetchNext hholds =>
          exact hclaimed _ _ rfl hbound (hdue.jobType ▸ hholds)
  | notifyClaim hdue _ =>
      cases hafter
      cases hissued with
      | read hread => simp [Stmt.readOnly] at hread
      | queueById hholds =>
          exact hclaimed _ _ rfl hbound (hdue.jobType ▸ hholds)
  | compatibilityClaim _ =>
      cases hissued with
      | read hread => simp [Stmt.readOnly] at hread
      | getJobs => exact hbound.elim
  | quarantine _ =>
      cases hafter
      exact hfree rfl
  | lock hrow hqueue _ =>
      cases hafter
      cases hissued with
      | read hread => simp [Stmt.readOnly] at hread
      | lockTask hholds =>
          have hheld := hholds _ hrow rfl hqueue
          exact hclaimed _ _ rfl hbound hheld
  | undecodable hrow _ =>
      cases hafter
      exact hkept _ hrow rfl rfl
  | start hrow _ _ _ =>
      cases hafter
      exact hkept _ hrow rfl rfl
  | acknowledge hrow _ =>
      cases hafter
      exact hkept _ hrow rfl rfl
  | recovery _ _ _ _ _ =>
      cases hafter
      exact hfree rfl
  | purge _ _ _ _ => cases hafter

theorem RowsSince.start {db : Db} (hbudgeted : db.Budgeted)
    (hrows : ∀ row ∈ db.jobs.rows, row.WellFormed) :
    RowsSince db op db [] :=
  ⟨.start hbudgeted, hrows⟩

/-- Why a statement failed: the insert met a stored id or a task its columns
refuse, or a row it wrote violates the schema. -/
theorem exec_error {fault : DieselError}
    (h : stmt.exec env view = .error fault) :
    (fault = Constraint.jobsPkey.fault ∨
      ∃ queue batch task violated, stmt = .insertJobs queue batch ∧
        task ∈ batch ∧ rowViolation (task.row queue) = some violated ∧
        fault = violated.fault) ∨
      ∃ result planned, stmt.plan env view = .ok (result, planned) ∧
        ∃ effect ∈ planned, ∃ violated,
          effectViolation (view.apply planned) effect = some violated ∧
            fault = violated.fault := by
  unfold Stmt.exec at h
  cases hplan : stmt.plan env view with
  | error refused =>
      simp only [hplan, bind, Except.bind, Except.error.injEq] at h
      subst h
      exact Or.inl (plan_error hplan)
  | ok planned =>
      simp only [hplan, bind, Except.bind] at h
      split at h
      · rename_i violated hfound
        obtain ⟨effect, hmem, hviolated⟩ := List.exists_of_findSome?_eq_some hfound
        simp only [throw, throwThe, MonadExceptOf.throw,
          Except.error.injEq] at h
        exact Or.inr ⟨planned.1, planned.2, rfl, effect, hmem, violated,
          hviolated, h.symm⟩
      · cases h

/-- A write the schema refuses, under the invariant, can only be a claim that
presented no token and names no registration. -/
theorem RowsSince.violation {result : stmt.Result} {planned : List Effect}
    (h : RowsSince origin op view effects) (hissued : Issued view op stmt)
    (hparts : ∀ token res parts, op = .acknowledge token res parts →
      CarriesBudget origin parts)
    (hbatch : ∀ queue batch, op = .pushTasksOnConn queue batch →
      ∀ task ∈ batch, task.Admissible)
    (hplan : stmt.plan env view = .ok (result, planned)) {effect : Effect}
    (hmem : effect ∈ planned) {violated : Constraint}
    (hviolated : effectViolation (view.apply planned) effect = some violated) :
    violated = .jobsLockByWorkerTypeFkey ∧ ¬ TokenBound op := by
  have hstep := plan_step hplan effect hmem
  cases effect with
  | worker change =>
      exact absurd hviolated (by simp [prune_accepted hplan hstep])
  | job change =>
      cases hafter : change.after with
      | none => simp [effectViolation, hafter] at hviolated
      | some row =>
          have hjob : JobStep env view stmt change := hstep
          have hstorable := h.storable hissued hbatch hjob hafter
          have hwellFormed := hjob.wellFormed hissued
            (h.ackFits hissued hparts) h.wellFormed hafter
            hstorable.maxAttempts_pos
          simp only [effectViolation, hafter,
            hwellFormed.rowViolation hstorable] at hviolated
          split at hviolated
          · cases hviolated
          · rename_i howner
            cases hviolated
            refine ⟨rfl, ?_⟩
            intro hbound
            apply howner
            exact h.owner_registered hissued hbound hplan hjob hafter

end

theorem BudgetPromised.carries {system : System} {op : Op}
    (hpromised : BudgetPromised system op)
    (hreturned : ∀ parts, Returned system.commits parts →
      CarriesBudget system.db parts) :
    ∀ token res parts, op = .acknowledge token res parts →
      CarriesBudget system.db parts := by
  rintro token res parts rfl
  rcases hpromised with hclaimed | ⟨_, hmanual⟩
  · exact hreturned parts hclaimed
  · exact hmanual

variable {rows : TaskConversion}

/-- The run invariant. -/
def System.RowsWellFormed (system : System) : Prop :=
  ∀ row ∈ system.db.jobs.rows, row.WellFormed

/-- What the rule for one transaction gives under the promises. -/
theorem System.RowsWellFormed.execute (rows : TaskConversion) {system : System}
    (hrows : system.RowsWellFormed) (hbudgeted : system.db.Budgeted)
    (invocation : Invocation)
    (hparts : ∀ token res parts, invocation.op = .acknowledge token res parts →
      CarriesBudget system.db parts) :
    RowsSince system.db invocation.op (system.execute rows invocation).view
        (system.execute rows invocation).effects ∧
      match (system.execute rows invocation).outcome with
      | .ok value => value.Claimed (system.execute rows invocation).view ∧
          invocation.op.Settled (system.execute rows invocation).view
      | .error error => ∀ operation fault, error = .database operation fault →
          ∃ stmt env view effects, Issued view invocation.op stmt ∧
            RowsSince system.db invocation.op view effects ∧
            stmt.exec env view = .error fault :=
  System.execute_ensures rows system invocation
    (RowsSince.start hbudgeted hrows)
    fun _ _ _ _ _ hissued hview hexec => hview.step hissued hparts hexec

theorem Reachable.rowsWellFormed {system : System}
    (h : Reachable rows BudgetPromised system) : system.RowsWellFormed := by
  induction h with
  | initial =>
      intro row hrow
      cases hrow
  | step hsystem invocation hadmits ih =>
      exact (ih.execute rows hsystem.budgeted invocation
        (hadmits.carries hsystem.returned_budget)).1.wellFormed

theorem Constraint.fault_inj {first second : Constraint}
    (h : first.fault = second.fault) : first = second := by
  cases first <;> cases second <;>
    first
    | rfl
    | simp [Constraint.fault, Constraint.kind, Constraint.name] at h

/-- Every row of every run is well formed and names a registered owner, and
the schema refuses no write of an operation but a task-id collision and the
owner of a claim that presented no token. -/
theorem reachable_rows_wellFormed {system : System}
    (h : Reachable rows BudgetPromised system) :
    (∀ row ∈ system.db.jobs.rows, row.WellFormed ∧
      ∀ worker, row.lockBy = some worker →
        ∃ owner, system.db.workers.get? (worker, row.jobType) = some owner) ∧
    ∀ (invocation : Invocation) (operation : String) (violated : Constraint),
      BudgetPromised system invocation.op →
      (system.execute rows invocation).outcome =
        .error (.database operation violated.fault) →
      violated = .jobsPkey ∨
        (violated = .jobsLockByWorkerTypeFkey ∧ ¬ TokenBound invocation.op) := by
  have hrows := h.rowsWellFormed
  have hbudgeted := h.budgeted
  constructor
  · intro row hrow
    exact ⟨hrows row hrow,
      ownerRegistered_iff.mp (hbudgeted.owners row hrow)⟩
  · intro invocation operation violated hpromised herror
    have hparts := hpromised.carries h.returned_budget
    obtain ⟨_, houtcome⟩ := hrows.execute rows hbudgeted invocation hparts
    rw [herror] at houtcome
    obtain ⟨stmt, env, view, effects', hissued, hview, hexec⟩ :=
      houtcome operation violated.fault rfl
    have hbatch : ∀ queue batch, invocation.op = .pushTasksOnConn queue batch →
        ∀ task ∈ batch, task.Admissible := by
      rintro queue batch hop task htask
      rw [hop] at hpromised
      exact hpromised task htask
    rcases exec_error hexec with
      (hpkey | ⟨queue, batch, task, other, rfl, htask, hviolated, _⟩) |
      ⟨result, planned, hplan, effect, hmem, other, hviolated, hfault⟩
    · exact Or.inl (Constraint.fault_inj hpkey)
    · have hadmissible : task.Admissible := by
        generalize hop : invocation.op = op at hissued
        cases hissued with
        | read hread => simp [Stmt.readOnly] at hread
        | insertJobs => exact hbatch queue batch hop task htask
      rw [hadmissible.accepted] at hviolated
      cases hviolated
    · rw [Constraint.fault_inj hfault]
      exact Or.inr (hview.violation hissued hparts hbatch hplan hmem hviolated)

/-- A worker registers, claims an enqueued task and acknowledges it with the
parts of the claim; the row ends `Done` under its owner. -/
theorem reachable_rows_wellFormed_acknowledged :
    let parts := recordClaim ⟨some sampleId, ⟨2, some 1, some "worker",
      some "queue"⟩, 0, none⟩
    let calls : List Invocation := [
      ⟨.registerWorker "worker" "queue" storageName "" "token" 30, quietEnv⟩,
      ⟨.pushTasksOnConn "queue" [sampleTask], quietEnv⟩,
      ⟨.fetchNext "worker" "queue" 10 (some "token"), quietEnv⟩,
      ⟨.acknowledge (some "token") (.ok (.ok .null)) parts, quietEnv⟩]
    let system := calls.foldl (System.step TaskConversion.copying) .initial
    (system.db.jobs.rows.map fun row => (row.status, row.lockBy)) =
        [(.done, some "worker")] ∧
      ∀ row ∈ system.db.jobs.rows, row.WellFormed := by
  intro parts calls system
  refine ⟨by decide +kernel, ?_⟩
  have hclaimed : Reachable TaskConversion.copying BudgetPromised
      ((calls.take 3).foldl (System.step TaskConversion.copying) .initial) := by
    refine .step (.step (.step .initial _ trivial) _ ?_) _ trivial
    intro task htask
    cases List.mem_singleton.mp htask
    constructor <;> decide
  have hreturned : Returned ((calls.take 3).foldl
      (System.step TaskConversion.copying) .initial).commits parts :=
    ⟨_, _, [], [⟨[], parts⟩], ⟨[], parts⟩, rfl, rfl, by simp, rfl, rfl, rfl,
      by simp⟩
  have hsystem : Reachable TaskConversion.copying BudgetPromised system :=
    .step hclaimed ⟨.acknowledge (some "token") (.ok (.ok .null)) parts,
      quietEnv⟩ (Or.inl hreturned)
  intro row hrow
  exact ((reachable_rows_wellFormed hsystem).1 row hrow).1

end ApalisPostgres
