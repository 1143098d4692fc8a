/-
The history of a task when sessions interleave.  Every row begins with its
enqueue, keeps the columns of the enqueue, spends one attempt for each charging
write and ends with a purge once it is finished; so a task that a committed push
accepted is never lost, whatever the other sessions do meanwhile.
-/
import ApalisPostgres.RowHistories
import ApalisPostgres.Lifecycle

namespace ApalisPostgres

open RowStore

variable {rows : TaskConversion} {op : Op}

/-- What the statements that trust their transaction rest on: a quarantine names
a row its transaction has just claimed, an acknowledgement stores the count it
pins and one more, and only a purge deletes. -/
def Trusted (op : Op) (before : List (Ran sql)) : Stmt → Prop
  | .quarantine id _ => ∃ row : JobRow, row.status = .queued ∧
      ∀ db : Db, (db.apply (written before)).jobs.get? id = some row
  | .ackTask update =>
      ∃ token res parts, update.Acknowledges token res parts
  | .purgeTerminal queue cutoff limit =>
      op = .purgeTerminalBatch queue cutoff limit
  | _ => True

/-- The statements that carry their whole guard themselves. -/
def Stmt.guarded : Stmt → Bool
  | .quarantine .. | .ackTask .. | .purgeTerminal .. => false
  | _ => true

theorem trusted_of_guarded (before : List (Ran sql)) (stmt : Stmt)
    (h : stmt.guarded = true) : Trusted op before stmt := by
  cases stmt with
  | quarantine | ackTask | purgeTerminal => cases h
  | _ => trivial

theorem requireWorker_guarded (worker queue : String) (token : Option String) :
    (requireWorker worker queue token).Only fun stmt => stmt.guarded = true := by
  refine ⟨rfl, ?_⟩
  intro registration
  cases token with
  | none => trivial
  | some presented => cases registration <;> trivial

theorem recoverOwned_guarded (queue : String) (workers : List String)
    (recovery : Recovery) :
    (recoverOwned queue workers recovery).Only
      fun stmt => stmt.guarded = true := by
  unfold recoverOwned
  split
  · trivial
  · exact ⟨rfl, fun _ => trivial⟩

theorem written_job (item : Ran sql) {change : JobChange}
    (h : change ∈ jobChanges item.changes) (db : Db) :
    (db.apply item.changes).jobs.get? change.key = change.after := by
  have hexecuted := exec_executed item.executed
  rw [Db.apply_jobs]
  apply db.jobs.get?_applyChanges_of_mem _ hexecuted.jobKeys h
  intro other hother row hafter
  exact (hexecuted.jobStep hother).reads.key_eq row hafter

theorem quarantine_key {env : Env} {view : Db} {id : String} {result : Json}
    {change : JobChange} (h : JobStep env view (.quarantine id result) change) :
    change.key = id := by
  cases h
  rfl

/-- A claimed row that cannot be converted is quarantined while it is as the
claim left it. -/
theorem claimedTasks_trusted {claimed : List JobRow}
    {trace : List (Ran sql)} (hnodup : (claimed.map JobRow.id).Nodup)
    (hleft : ∀ row ∈ claimed, row.status = .queued ∧
      ∀ db : Db, (db.apply (written trace)).jobs.get? row.id = some row) :
    (claimedTasks rows claimed).IssuesAfter (Trusted op) (fun _ _ => True)
      trace := by
  induction claimed generalizing trace with
  | nil => trivial
  | cons row rest ih =>
      rw [List.map_cons, List.nodup_cons] at hnodup
      have hrest : ∀ other ∈ rest, other.status = .queued ∧
          ∀ db : Db, (db.apply (written trace)).jobs.get? other.id =
            some other :=
        fun other hother => hleft other (List.mem_cons_of_mem _ hother)
      unfold claimedTasks
      cases rows.tryIntoTaskCompact row with
      | ok task =>
          apply Program.issuesAfter_bind
          apply (ih hnodup.2 hrest).mono
          intro _ _ _
          trivial
      | error message =>
          obtain ⟨hqueued, hstored⟩ := hleft row List.mem_cons_self
          apply issuesAfter_query ⟨row, hqueued, hstored⟩
          intro env base count changes hexec
          apply ih hnodup.2
          intro other hother
          obtain ⟨hstatus, hkept⟩ := hrest other hother
          refine ⟨hstatus, ?_⟩
          intro db
          have hexecuted := exec_executed hexec
          have hne : other.id ∉ (jobChanges changes).map RowChange.key := by
            intro hkey
            obtain ⟨change, hchange, hid⟩ := List.mem_map.mp hkey
            have hrow := quarantine_key (hexecuted.jobStep hchange)
            exact hnodup.1 (List.mem_map.mpr ⟨other, hother, hid.symm.trans hrow⟩)
          rw [← hkept db]
          exact (congrArg (fun view : Db => view.jobs.get? other.id)
            (Cells.apply_concat db trace _)).trans
              (jobCells.kept other.id _ _ hne)

/-- The rows a claim returns are the rows it leaves, whatever it ran over. -/
theorem claim_trusted {item : Ran sql} {edge : JobEdge} {worker : String}
    {selected : List JobRow}
    (hchanges : item.changes =
      updateJobs edge (claimRow worker item.env.now) selected)
    (trace : List (Ran sql)) :
    (claimedTasks rows (claimedRows worker item.env.now selected)).IssuesAfter
      (Trusted op) (fun _ _ => True) (trace ++ [item]) := by
  have hexecuted := exec_executed item.executed
  have hids : ((claimedRows worker item.env.now selected).map JobRow.id).Perm
      (selected.map JobRow.id) := by
    have hperm := (List.perm_insertionSort claimOrder
      (selected.map (claimRow worker item.env.now))).map JobRow.id
    rw [List.map_map] at hperm
    exact hperm
  have hnodup : (selected.map JobRow.id).Nodup := by
    have hkeys := hexecuted.jobKeys
    rwa [hchanges, jobChanges_updateJobs, updateChanges_keys] at hkeys
  apply claimedTasks_trusted (hids.nodup_iff.mpr hnodup)
  intro row hrow
  obtain ⟨old, hold, rfl⟩ :=
    List.mem_map.mp ((List.mem_insertionSort _).mp hrow)
  refine ⟨rfl, ?_⟩
  intro db
  have hchange : (⟨old.id, edge, some old,
      some (claimRow worker item.env.now old)⟩ : JobChange) ∈
        jobChanges item.changes := by
    rw [hchanges, jobChanges_updateJobs]
    exact mem_updateChanges.mpr ⟨old, hold, rfl⟩
  refine (congrArg (fun view : Db => view.jobs.get? old.id)
    (Cells.apply_concat db trace item)).trans ?_
  exact written_job item hchange _

theorem acknowledge_trusted (token : Option String) (res : HandlerResult)
    (parts : Parts) :
    (acknowledge token res parts).IssuesAfter (Trusted op) (fun _ _ => True) [] := by
  unfold acknowledge
  cases hupdate : ackUpdate token res parts with
  | error error => trivial
  | ok update =>
      have hwrite : ∀ trace, (query "acknowledging task" (.ackTask update) >>=
          fun count => if count = 0 then
            (.rollback (.staleAcknowledgement update.taskId update.queue
              update.workerId) : Tx Unit)
          else return ()).IssuesAfter (Trusted op) (fun _ _ => True) trace := by
        intro trace
        apply issuesAfter_query ⟨token, res, parts, ackUpdate_ok hupdate⟩
        intro env base count changes hexec
        split <;> trivial
      change (ackTask update).IssuesAfter (Trusted op) _ _
      unfold ackTask
      split
      · refine ⟨trivial, ?_⟩
        intro item hstmt hview
        rw [Program.pure_eq]
        change Program.IssuesAfter _ _ _ (ite _ _ _)
        split
        · exact hwrite _
        · trivial
      · exact hwrite _

/-- A body whose statements all carry their guard. -/
def Guarding {α : Type} (body : Tx α) : Prop :=
  body.Only fun stmt => stmt.guarded = true

/-- Every operation issues its quarantines and acknowledgements so. -/
theorem program_trusted (op : Op) :
    (program rows op).IssuesAfter (Trusted op) (fun _ _ => True) [] := by
  have hdone : ∀ {α : Type} {first : Tx α} {f : α → Outcome},
      first.IssuesAfter (Trusted op) (fun _ _ => True) [] →
      (first >>= fun value => pure (f value)).IssuesAfter (Trusted op)
        (fun _ _ => True) [] := by
    intro α first f hfirst
    apply Program.issuesAfter_bind
    apply hfirst.mono
    intro _ _ _
    trivial
  have hguarding : ∀ {α : Type} {first : Tx α} {f : α → Outcome},
      Guarding first → (first >>= fun value => pure (f value)).IssuesAfter
        (Trusted op) (fun _ _ => True) [] :=
    fun hfirst => hdone (hfirst.issuesAfter trusted_of_guarded [])
  cases op with
  | fetchNext worker queue bufferSize token =>
      apply hdone
      apply Program.Only.issuesAfter_bind
        (requireWorker_guarded worker queue token) trusted_of_guarded
      intro trace _
      apply issuesAfter_query trivial
      intro env base claimed changes hexec
      have hplan := (exec_ok hexec).1
      simp only [Stmt.plan, Except.ok.injEq, Prod.mk.injEq] at hplan
      obtain ⟨rfl, rfl⟩ := hplan
      exact @claim_trusted _ _ ⟨_, env, base, _, _, _, hexec⟩ _ _ _ rfl trace
  | queueById queue ids worker token =>
      apply hdone
      apply Program.Only.issuesAfter_bind
        (requireWorker_guarded worker queue token) trusted_of_guarded
      intro trace _
      apply issuesAfter_query trivial
      intro env base claimed changes hexec
      have hplan := (exec_ok hexec).1
      simp only [Stmt.plan, Except.ok.injEq, Prod.mk.injEq] at hplan
      obtain ⟨rfl, rfl⟩ := hplan
      exact @claim_trusted _ _ ⟨_, env, base, _, _, _, hexec⟩ _ _ _ rfl trace
  | acknowledge token res parts => exact hdone (acknowledge_trusted token res parts)
  | pushTasksOnConn queue batch =>
      apply hguarding
      unfold pushTasksOnConn
      split
      · trivial
      · refine ⟨rfl, ?_⟩
        intro inserted
        change Program.Only _ (ite _ _ _)
        split <;> trivial
  | getJobs worker queue count => exact hguarding ⟨rfl, fun _ => trivial⟩
  | startTask claim => exact hguarding ⟨rfl, fun _ => trivial⟩
  | lockTaskWithToken taskId worker queue token =>
      apply hguarding
      refine ⟨rfl, ?_⟩
      intro located
      have hlocated : Guarding (requireLocatedWorker worker token located) := by
        cases located with
        | none => trivial
        | some found => exact requireWorker_guarded worker found token
      · apply Program.only_bind hlocated
        intro _
        refine ⟨rfl, ?_⟩
        intro locked
        cases locked with
        | nil => trivial
        | cons row rest =>
            change Guarding (lockedTask rows taskId queue (row :: rest))
            simp only [lockedTask]
            cases claimedTaskRow rows row <;> trivial
  | failUndecodableTask taskId worker lockAt attempts error token =>
      apply hguarding
      unfold failUndecodableTask
      cases token with
      | none => exact ⟨rfl, fun _ => trivial⟩
      | some token =>
          refine ⟨rfl, ?_⟩
          intro located
          cases located with
          | none => trivial
          | some found =>
              refine ⟨rfl, ?_⟩
              intro registration
              rw [Program.pure_eq]
              change Program.Only _ (ite _ _ _)
              split
              · exact ⟨rfl, fun _ => trivial⟩
              · trivial
  | releaseWorker queue worker token =>
      apply hguarding
      refine ⟨rfl, ?_⟩
      intro owned
      cases owned with
      | false => trivial
      | true =>
          apply Program.only_bind (recoverOwned_guarded queue [worker] .release)
          intro _
          exact ⟨rfl, fun _ => trivial⟩
  | reenqueueOrphaned queue staleAfter =>
      apply hguarding
      exact ⟨rfl, fun workers => recoverOwned_guarded queue workers .staleSweep⟩
  | registerWorker worker queue storage layers token staleAfter =>
      have hrow : Guarding (registerRow worker queue storage layers token) :=
        ⟨rfl, fun _ => trivial⟩
      apply hguarding
      refine ⟨rfl, ?_⟩
      intro acquired
      cases acquired with
      | false => trivial
      | true =>
          refine ⟨rfl, ?_⟩
          intro existing
          cases existing with
          | none => exact hrow
          | some decision =>
              change Program.Only _ (ite _ _ _)
              split
              · split
                · exact Program.only_bind
                    (recoverOwned_guarded queue [worker] .takeover)
                    fun _ => hrow
                · exact hrow
              · trivial
  | keepAlive worker queue token =>
      apply hguarding
      refine ⟨rfl, ?_⟩
      intro count
      change Program.Only _ (ite _ _ _)
      split <;> trivial
  | registerWorkerAdmin worker queue => exact hguarding ⟨rfl, fun _ => trivial⟩
  | pruneWorkersBatch queue staleFor limit =>
      apply hguarding
      refine ⟨rfl, ?_⟩
      intro candidates
      change Program.Only _ (ite _ _ _)
      split
      · trivial
      · exact ⟨rfl, fun _ => trivial⟩
  | purgeTerminalBatch queue cutoff limit =>
      apply hdone
      exact issuesAfter_query rfl fun _ _ _ _ _ => trivial

/-- The columns an enqueue fixes for the life of a row. -/
structure JobRow.SameTask (row other : JobRow) : Prop where
  id : row.id = other.id
  job : row.job = other.job
  jobType : row.jobType = other.jobType
  maxAttempts : row.maxAttempts = other.maxAttempts
  runAt : row.runAt = other.runAt
  priority : row.priority = other.priority
  metadata : row.metadata = other.metadata
  idempotencyKey : row.idempotencyKey = other.idempotencyKey

theorem JobRow.SameTask.refl (row : JobRow) : row.SameTask row :=
  ⟨rfl, rfl, rfl, rfl, rfl, rfl, rfl, rfl⟩

theorem JobRow.SameTask.trans {first second third : JobRow}
    (h : first.SameTask second) (hnext : second.SameTask third) :
    first.SameTask third where
  id := h.id.trans hnext.id
  job := h.job.trans hnext.job
  jobType := h.jobType.trans hnext.jobType
  maxAttempts := h.maxAttempts.trans hnext.maxAttempts
  runAt := h.runAt.trans hnext.runAt
  priority := h.priority.trans hnext.priority
  metadata := h.metadata.trans hnext.metadata
  idempotencyKey := h.idempotencyKey.trans hnext.idempotencyKey

/-- What a statement that trusts its transaction knows of the row it finds. -/
structure TrustsRow (stmt : Stmt) (found : Option JobRow) : Prop where
  quarantine : ∀ id result, stmt = .quarantine id result →
    ∀ row, found = some row → row.status = .queued
  acknowledge : ∀ update, stmt = .ackTask update →
    ∃ token res parts, update.Acknowledges token res parts

/-- The statuses that an edge of the lifecycle leads from and to. -/
def JobEdge.leads (edge : JobEdge) (old new : Status) : Bool :=
  match edge with
  | .pollClaim | .notifyClaim | .compatibilityClaim =>
      (old = .pending || old = .failed) && new = .queued
  | .lock => (old ≠ .done && old ≠ .killed) && new = .running
  | .start => (old = .queued || old = .running) && new = .running
  | .acknowledge =>
      (old = .queued || old = .running) &&
        (new = .done || new = .failed || new = .killed)
  | .undecodable =>
      (old = .queued || old = .running) && (new = .failed || new = .killed)
  | .quarantine => old = .queued && new = .killed
  | .recovery _ =>
      (old = .queued || old = .running) && (new = .pending || new = .killed)
  | .enqueue | .purge => false

/-- One write in the history of a task.  A move is a step of its statement,
whose guard it met and which fixes every column it left, the owner and the
claim among them. -/
inductive TaskWrite (env : Env) (view : Db) (stmt : Stmt) :
    JobChange → Prop where
  | enqueued {queue : String} {task : NewJob} :
      TaskWrite env view stmt ⟨task.id, .enqueue, none, some (task.row queue)⟩
  | moved {change : JobChange} {old new : JobRow}
      (hstep : JobStep env view stmt change)
      (htrusts : TrustsRow stmt change.before)
      (hbefore : change.before = some old) (hafter : change.after = some new)
      (hleads : change.tag.leads old.status new.status = true)
      (hlive : terminal old = false) (hsame : new.SameTask old)
      (hattempts : new.attempts =
        old.attempts + if chargesAttempt change then 1 else 0) :
      TaskWrite env view stmt change
  | purged {row : JobRow} (hterminal : terminal row = true) :
      TaskWrite env view stmt ⟨row.id, .purge, some row, none⟩

section

variable {env : Env} {view : Db} {stmt : Stmt} {change : JobChange}

theorem terminal_of_active {row : JobRow} (h : row.active = true) :
    terminal row = false := by
  rcases row.active_iff.mp h with hstatus | hstatus <;> simp [terminal, hstatus]

theorem terminal_of_claimable {row : JobRow} (h : claimable row = true) :
    terminal row = false := by
  obtain ⟨hstatus, hbudget⟩ := (claimable_iff row).mp h
  rcases hstatus with hstatus | hstatus <;> simp [terminal, hstatus, hbudget]

theorem terminal_of_lockable {worker : String} {now : Timestamp} {row : JobRow}
    (h : lockable worker now row = true) : terminal row = false := by
  simp only [lockable, Bool.and_eq_true, Bool.or_eq_true,
    decide_eq_true_eq] at h
  rcases h.2 with ((⟨hstatus, _⟩ | ⟨hstatus, _⟩) | ⟨hstatus, _⟩) |
    ⟨hstatus, hbudget⟩ <;> simp_all [terminal]

/-- A row with an attempt left keeps its budget when it is charged at most one
and not left active. -/
theorem JobRow.Budgeted.moved {old new : JobRow} {charge : Bool}
    (h : old.Budgeted) (hfree : old.attempts < old.maxAttempts)
    (hmax : new.maxAttempts = old.maxAttempts)
    (hattempts : new.attempts = old.attempts + if charge then 1 else 0)
    (hidle : charge = true → new.active = false) : new.Budgeted := by
  have hnonneg := h.attempts_nonneg
  cases charge with
  | false =>
      simp only [Bool.false_eq_true, if_false] at hattempts
      refine ⟨by omega, by omega, fun _ => by omega⟩
  | true =>
      simp only [if_true] at hattempts
      refine ⟨by omega, by omega, fun hactive => ?_⟩
      rw [hidle rfl] at hactive
      cases hactive

theorem chargesAttempt_recovery (key : String) (reason : Recovery)
    (row : JobRow) (after : Option JobRow) :
    chargesAttempt ⟨key, .recovery reason, some row, after⟩ =
      charged reason row := by
  cases reason <;> simp [chargesAttempt, charged, Recovery.chargesUnstarted]

theorem JobStep.sameTask (h : JobStep env view stmt change) {old new : JobRow}
    (hbefore : change.before = some old) (hafter : change.after = some new) :
    new.SameTask old := by
  cases h <;> cases hbefore <;> cases hafter <;>
    exact ⟨rfl, rfl, rfl, rfl, rfl, rfl, rfl, rfl⟩

theorem JobStep.purged (h : JobStep env view stmt change)
    (hafter : change.after = none) :
    ∃ queue cutoff limit row, stmt = .purgeTerminal queue cutoff limit ∧
      change = ⟨row.id, .purge, some row, none⟩ ∧ terminal row = true ∧
      completedBefore cutoff row = true := by
  cases h with
  | @purge queue cutoff limit row _ _ hterminal hold =>
      exact ⟨queue, cutoff, limit, row, rfl, rfl, hterminal, hold⟩
  | _ => cases hafter

/-- A step that moves a row finds it unfinished and with an attempt left. -/
theorem JobStep.moves (h : JobStep env view stmt change)
    (htrusts : TrustsRow stmt change.before) {old new : JobRow}
    (hold : old.Budgeted) (hbefore : change.before = some old)
    (hafter : change.after = some new) :
    terminal old = false ∧ old.attempts < old.maxAttempts ∧
      new.SameTask old ∧
      new.attempts = old.attempts + (if chargesAttempt change then 1 else 0) ∧
      (chargesAttempt change = true → new.active = false) := by
  have hsame : new.SameTask old := h.sameTask hbefore hafter
  have hactive : old.active = true →
      terminal old = false ∧ old.attempts < old.maxAttempts :=
    fun h => ⟨terminal_of_active h, hold.active h⟩
  cases h with
  | enqueue _ _ => cases hbefore
  | purge _ _ _ _ => cases hafter
  | pollClaim hdue | notifyClaim hdue _ | compatibilityClaim hdue =>
      cases hbefore
      cases hafter
      exact ⟨terminal_of_claimable hdue.claimable,
        ((claimable_iff _).mp hdue.claimable).2,
        hsame, (add_zero _).symm,
        fun hcharge => by cases hcharge⟩
  | lock _ _ hlockable =>
      cases hbefore
      cases hafter
      exact ⟨terminal_of_lockable hlockable, lockable_attempts hlockable hold,
        hsame, (add_zero _).symm,
        fun hcharge => by cases hcharge⟩
  | start _ hstart _ _ =>
      cases hbefore
      cases hafter
      obtain ⟨hlive, hfree⟩ := hactive (startable_iff.mp hstart).active
      exact ⟨hlive, hfree, hsame,
        (add_zero _).symm, fun hcharge => by cases hcharge⟩
  | quarantine _ =>
      cases hbefore
      cases hafter
      obtain ⟨hlive, hfree⟩ := hactive
        (old.active_iff.mpr (Or.inl (htrusts.quarantine _ _ rfl _ rfl)))
      exact ⟨hlive, hfree, hsame,
        boundedIncrement_eq hfree, fun _ => rfl⟩
  | undecodable _ hepoch =>
      cases hbefore
      cases hafter
      obtain ⟨hlive, hfree⟩ := hactive (epochMatches_iff.mp hepoch).2.1
      refine ⟨hlive, hfree, hsame,
        boundedIncrement_eq hfree, fun _ => ?_⟩
      simp only [undecodableRow, JobRow.active]
      split <;> rfl
  | @acknowledge update _ _ hepoch =>
      cases hbefore
      cases hafter
      obtain ⟨_, _, hclaimed, _, _, hstarted⟩ := acknowledgeable_iff.mp hepoch
      obtain ⟨hlive, hfree⟩ := hactive hclaimed
      obtain ⟨token, res, parts, hupdate⟩ := htrusts.acknowledge update rfl
      have hpinned := hupdate.startedAttempts
      refine ⟨hlive, hfree, hsame, ?_,
        fun _ => ackRow_active hupdate⟩
      simp only [ackRow, chargesAttempt, ↓reduceIte]
      omega
  | @recovery _ _ _ reason _ _ _ hclaimed _ _ =>
      cases hbefore
      cases hafter
      obtain ⟨hlive, hfree⟩ := hactive hclaimed
      refine ⟨hlive, hfree, hsame, ?_, ?_⟩
      · rw [chargesAttempt_recovery]
        simp only [recoverRow, nextAttempts, boundedIncrement_eq hfree]
        cases charged reason old <;> simp
      · intro _
        simp only [recoverRow, JobRow.active]
        split <;> rfl

theorem JobStep.enqueued (h : JobStep env view stmt change)
    (hbefore : change.before = none) :
    ∃ queue batch, ∃ task ∈ batch, stmt = .insertJobs queue batch ∧
      change = ⟨task.id, .enqueue, none, some (task.row queue)⟩ := by
  cases h with
  | enqueue htask _ => exact ⟨_, _, _, htask, rfl, rfl⟩
  | _ => cases hbefore

/-- An acknowledgement ends the execution of its row. -/
theorem acknowledged_status {update : AckTaskUpdate} {token : Option String}
    {res : HandlerResult} {parts : Parts}
    (h : update.Acknowledges token res parts) :
    update.status = .done ∨ update.status = .failed ∨
      update.status = .killed := by
  rw [h.status, calculateStatus]
  split
  · exact Or.inl rfl
  · split
    · exact Or.inr (Or.inl rfl)
    · exact Or.inr (Or.inr rfl)

/-- A step follows its edge from the status it finds to the one it leaves. -/
theorem JobStep.leads (h : JobStep env view stmt change)
    (htrusts : TrustsRow stmt change.before) {old new : JobRow}
    (hbefore : change.before = some old) (hafter : change.after = some new) :
    change.tag.leads old.status new.status = true := by
  have hheld : ∀ {row : JobRow}, row.active = true →
      (decide (row.status = .queued) || decide (row.status = .running)) =
        true := by
    intro row hactive
    simpa using row.active_iff.mp hactive
  cases h with
  | enqueue _ _ => cases hbefore
  | purge _ _ _ _ => cases hafter
  | pollClaim hdue | notifyClaim hdue _ | compatibilityClaim hdue =>
      cases hbefore
      cases hafter
      have hstatus := ((claimable_iff old).mp hdue.claimable).1
      simpa [JobEdge.leads, claimRow] using hstatus
  | lock _ _ hlockable =>
      cases hbefore
      cases hafter
      simp only [lockable, Bool.and_eq_true, Bool.or_eq_true,
        decide_eq_true_eq] at hlockable
      rcases hlockable.2 with ((⟨hstatus, _⟩ | ⟨hstatus, _⟩) | ⟨hstatus, _⟩) |
        ⟨hstatus, _⟩ <;> simp [JobEdge.leads, lockRow, hstatus]
  | start _ hstart _ _ =>
      cases hbefore
      cases hafter
      simp [JobEdge.leads, startRow, hheld (startable_iff.mp hstart).active]
  | quarantine _ =>
      cases hbefore
      cases hafter
      simp [JobEdge.leads, quarantineRow, htrusts.quarantine _ _ rfl _ rfl]
  | undecodable _ hepoch =>
      cases hbefore
      cases hafter
      have hactive := hheld (epochMatches_iff.mp hepoch).2.1
      simp only [JobEdge.leads, undecodableRow, hactive, Bool.true_and]
      split <;> rfl
  | @acknowledge update _ _ hepoch =>
      cases hbefore
      cases hafter
      obtain ⟨_, _, hactive, _⟩ := acknowledgeable_iff.mp hepoch
      obtain ⟨token, res, parts, hupdate⟩ := htrusts.acknowledge update rfl
      simp only [JobEdge.leads, ackRow, hheld hactive, Bool.true_and]
      rcases acknowledged_status hupdate with h | h | h <;> simp [h]
  | recovery _ _ hactive _ _ =>
      cases hbefore
      cases hafter
      simp only [JobEdge.leads, recoverRow, hheld hactive, Bool.true_and]
      split <;> rfl

/-- What a step makes of the row it found. -/
theorem JobStep.taskWrite (h : JobStep env view stmt change)
    (htrusts : TrustsRow stmt change.before)
    (hbudget : ∀ row, change.before = some row → row.Budgeted) :
    TaskWrite env view stmt change := by
  cases hbefore : change.before with
  | none =>
      obtain ⟨queue, _, task, _, _, rfl⟩ := h.enqueued hbefore
      exact .enqueued
  | some old =>
      cases hafter : change.after with
      | none =>
          obtain ⟨_, _, _, row, _, rfl, hterminal, _⟩ := h.purged hafter
          exact .purged hterminal
      | some new =>
          obtain ⟨hlive, _, hsame, hattempts, _⟩ :=
            h.moves htrusts (hbudget old hbefore) hbefore hafter
          exact .moved h htrusts hbefore hafter
            (h.leads htrusts hbefore hafter) hlive hsame hattempts

end

/-- The books of one row: it was charged once at every count below its own. -/
structure RowAccount (id : String) (history : List Effect) (row : JobRow) :
    Prop where
  budgeted : row.Budgeted
  charges : (rowCharges id history).map attemptsBefore =
    (List.range row.attempts.toNat).map fun count : Nat => some (count : Int)

theorem RowAccount.kept {id : String} {history changes : List Effect}
    {row : JobRow} (h : RowAccount id history row)
    (hnot : id ∉ (jobChanges changes).map RowChange.key) :
    RowAccount id (history ++ changes) row := by
  refine ⟨h.budgeted, ?_⟩
  rw [rowCharges_append, foldl_chargeStep_of_not_mem hnot]
  exact h.charges

/-- A write keeps the books of the row it found. -/
theorem RowAccount.wrote {item : Ran sql} {change : JobChange}
    {history : List Effect} (hmem : change ∈ jobChanges item.changes)
    (htrusts : TrustsRow item.stmt change.before)
    (hfound : ∀ old, change.before = some old →
      RowAccount change.key history old) {row : JobRow}
    (hafter : change.after = some row) :
    RowAccount change.key (history ++ item.changes) row := by
  have hexecuted := exec_executed item.executed
  have hstep := hexecuted.jobStep hmem
  have hcharges : rowCharges change.key (history ++ item.changes) =
      chargeStep change.key (rowCharges change.key history) change := by
    rw [rowCharges_append, foldl_chargeStep_of_mem hexecuted.jobKeys hmem]
  rw [chargeStep, if_pos rfl] at hcharges
  cases hbefore : change.before with
  | none =>
      rw [if_pos (hstep.enqueue_iff.mpr hbefore)] at hcharges
      have hpos := (storable_of_accepted
        (hexecuted.row_accepted hmem hafter).1).maxAttempts_pos
      obtain ⟨queue, _, task, _, _, hchange⟩ := hstep.enqueued hbefore
      obtain rfl : task.row queue = row := by
        rw [hchange] at hafter
        exact Option.some.inj hafter
      refine ⟨⟨le_refl 0, le_of_lt hpos, fun hactive => ?_⟩, ?_⟩
      · simp [NewJob.row, JobRow.active] at hactive
      · rw [hcharges]
        rfl
  | some old =>
      obtain ⟨hbudgeted, hearlier⟩ := hfound old hbefore
      obtain ⟨_, hfree, hsame, hattempts, hidle⟩ :=
        hstep.moves htrusts hbudgeted hbefore hafter
      refine ⟨hbudgeted.moved hfree hsame.maxAttempts hattempts hidle, ?_⟩
      have htag : change.tag ≠ .enqueue := by
        rw [Ne, hstep.enqueue_iff, hbefore]
        simp
      have hnonneg := hbudgeted.attempts_nonneg
      rw [if_neg htag] at hcharges
      rw [hcharges]
      cases hcase : chargesAttempt change with
      | false =>
          rw [hcase] at hattempts
          simp only [Bool.false_eq_true, ↓reduceIte, add_zero] at hattempts ⊢
          rw [hattempts]
          exact hearlier
      | true =>
          rw [hcase] at hattempts
          simp only [↓reduceIte] at hattempts ⊢
          have hnext : row.attempts.toNat = old.attempts.toNat + 1 := by omega
          have hlast : attemptsBefore change =
              some (old.attempts.toNat : Int) := by
            simp only [attemptsBefore, hbefore, Option.map_some,
              Option.some.injEq]
            omega
          rw [List.map_append, hearlier, hnext, List.range_succ,
            List.map_append, List.map_singleton, List.map_singleton, hlast]

section

variable {server : PgServer}

/-- Every statement of every session issues its writes so. -/
theorem session_trusts (h : (pgServer rows).Reachable server) {index : Nat}
    {session : PgSession} (hsession : server.sessions[index]? = some session)
    {item : Ran sql} (hitem : item ∈ session.trace) {change : JobChange}
    (hchange : change ∈ jobChanges item.changes) :
    TrustsRow item.stmt change.before := by
  obtain ⟨before, after, hsplit⟩ := List.append_of_mem hitem
  have hissued : session.Issued before item := ⟨after, by simp [hsplit]⟩
  obtain ⟨htrusted, hview⟩ := (Server.reachable_disciplined h hsession
    (program_trusted session.op)).issued before item hissued
  have hstep := (exec_executed item.executed).jobStep hchange
  constructor
  · intro id result hstmt row hbefore
    rw [hstmt] at htrusted hstep
    obtain ⟨claimed, hqueued, hleft⟩ := htrusted
    have hread := hstep.reads.before_eq
    rw [quarantine_key hstep, hview, hbefore] at hread
    have hclaimed := hread.trans (hleft item.base)
    obtain rfl := Option.some.inj hclaimed
    exact hqueued
  · intro update hstmt
    rw [hstmt] at htrusted
    exact htrusted

theorem committed_trusts (h : (pgServer rows).Reachable server)
    {order : List Nat} : ∀ item ∈ server.statements order,
      ∀ change ∈ jobChanges item.changes,
        TrustsRow item.stmt change.before := by
  intro item hitem change hchange
  obtain ⟨index, _, session, hsession, hran⟩ := Server.mem_statements hitem
  exact session_trusts h hsession hran hchange

end

/-- A serial history keeps the books of every row. -/
theorem rowAccount_of_serial {trace : List (Ran sql)}
    (hserial : jobCells.Serial .empty trace)
    (htrusts : ∀ item ∈ trace, ∀ change ∈ jobChanges item.changes,
      TrustsRow item.stmt change.before) (id : String) :
    ∀ row, (Db.empty.apply (written trace)).jobs.get? id = some row →
      RowAccount id (written trace) row := by
  refine hserial.rule (fun trace value => ∀ row, value = some row →
    RowAccount id (written trace) row) ?_ ?_ ?_
  · intro row hnone
    cases hnone
  · intro before item value _ hkept hbefore row hrow
    rw [Cells.written_concat]
    exact (hbefore row hrow).kept hkept
  · intro before item hitem hwrites hbefore row hrow
    obtain ⟨change, hchange, rfl⟩ := List.mem_map.mp hwrites
    have hstep := (exec_executed item.executed).jobStep hchange
    rw [Cells.written_concat]
    apply RowAccount.wrote hchange (htrusts item hitem change hchange)
    · intro old hold
      exact hbefore old (hstep.reads.before_eq.symm.trans hold)
    · exact (written_job item hchange item.view).symm.trans hrow

/-- The history of every task in every interleaving: in the order of the
commits each write of a row replaced what the commits before it had left and is
an enqueue, a move of an unfinished row along an edge of the lifecycle, or the
purge of a finished one; and the stored count of a row is the number of its charging
writes, which happened at distinct counts and never overdrew its budget. -/
theorem task_histories_kept {server : PgServer}
    (h : (pgServer rows).Reachable server) :
    ∃ order, server.CommitOrder .empty order ∧
      (∀ before item after,
        server.statements order = before ++ item :: after →
        ∀ change ∈ jobChanges item.changes,
          TaskWrite item.env item.view item.stmt change ∧
          change.before =
            (Db.empty.apply (written before)).jobs.get? change.key) ∧
      ∀ row ∈ server.db.jobs.rows,
        row.attempts =
          ((rowCharges row.id (written (server.statements order))).length :
            Int) ∧
        ((rowCharges row.id (written (server.statements order))).map
          attemptsBefore).Nodup ∧
        row.attempts ≤ row.maxAttempts := by
  obtain ⟨order, horder, hcells⟩ := Server.reachable_commitOrder h
  have hserial := hcells jobCells
  have htrusts := @committed_trusts _ _ h order
  refine ⟨order, horder, ?_, ?_⟩
  · intro before item after hsplit change hchange
    have hstep := (exec_executed item.executed).jobStep hchange
    have hread : change.before =
        (Db.empty.apply (written before)).jobs.get? change.key := by
      rw [hstep.reads.before_eq]
      exact hserial before item after change.key hsplit
        (List.mem_map_of_mem hchange)
    refine ⟨hstep.taskWrite (htrusts item (by simp [hsplit]) change hchange) ?_,
      hread⟩
    intro old hold
    rw [hsplit] at hserial
    exact (rowAccount_of_serial hserial.left
      (fun earlier hearlier => htrusts earlier (by simp [hsplit, hearlier]))
      change.key old (hread.symm.trans hold)).budgeted
  · intro row hrow
    have hget : server.db.jobs.get? row.id = some row := Table.get?_of_mem hrow
    rw [horder.db_eq] at hget
    have haccount := rowAccount_of_serial hserial htrusts row.id row hget
    have hnonneg := haccount.budgeted.attempts_nonneg
    have hcharges := haccount.charges
    have hlength := congrArg List.length hcharges
    rw [List.length_map, List.length_map, List.length_range] at hlength
    refine ⟨by omega, ?_, haccount.budgeted.attempts_le⟩
    rw [hcharges]
    apply List.Nodup.map _ List.nodup_range
    intro first second heq
    exact Int.ofNat.inj (Option.some.inj heq)

theorem task_histories_kept_overtaken :
    (overtaken.db.jobs.rows.map fun row => (row.status, row.attempts)) =
        [(.failed, 1)] ∧
      ∃ order, overtaken.CommitOrder .empty order ∧
        ∀ row ∈ overtaken.db.jobs.rows, row.attempts =
          ((rowCharges row.id
            (written (overtaken.statements order))).length : Int) := by
  refine ⟨by decide +kernel, ?_⟩
  obtain ⟨order, horder, _, hcharges⟩ := task_histories_kept overtaken_reachable
  exact ⟨order, horder, fun row hrow => (hcharges row hrow).1⟩

end ApalisPostgres
