/-
The row and advisory locks of the crate's statements, and the server on which
its operations interleave.  A claim shares its registration, a takeover, a
release and a prune lock it for themselves, and every written row stays locked
until its transaction ends.
-/
import ApalisPostgres.Interleaving
import ApalisPostgres.Discipline

namespace ApalisPostgres

open RowStore

/-- What a transaction can lock. -/
inductive Resource where
  | registration (worker queue : String)
  | job (id : String)
  | advisory (worker queue : String)
deriving DecidableEq

/-- `FOR KEY SHARE`, the lock of an UPDATE that keeps the key columns, and
`FOR UPDATE`. -/
inductive LockMode where
  | keyShare
  | noKeyUpdate
  | update
deriving DecidableEq

def LockMode.conflicts : LockMode → LockMode → Bool
  | .keyShare, .keyShare => false
  | .keyShare, .noKeyUpdate => false
  | .noKeyUpdate, .keyShare => false
  | _, _ => true

/-- The locks of one written row.  A row that is inserted or deleted is
locked against everybody; a job row that gets a new owner shares the owner's
registration, as its foreign key does. -/
def changeLocks : Effect → List (Resource × LockMode)
  | .worker change =>
      [(.registration change.key.1 change.key.2,
        if change.before.isSome && change.after.isSome then .noKeyUpdate
        else .update)]
  | .job change =>
      (.job change.key, .update) ::
        match change.after with
        | none => []
        | some row =>
            if change.before.bind JobRow.lockBy = row.lockBy then []
            else match row.lockBy with
              | none => []
              | some worker => [(.registration worker row.jobType, .keyShare)]

/-- The locks a statement takes besides those of the rows it writes. -/
def statementLocks (view : Db) :
    (stmt : Stmt) → stmt.Result → List (Resource × LockMode)
  | .workerRegistration worker queue _, _ =>
      if (view.workers.get? (worker, queue)).isSome then
        [(.registration worker queue, .keyShare)]
      else []
  | .startTask claim, _ =>
      if (view.workers.get? (claim.workerId, claim.queue)).any
          (tokenAccepted claim.leaseToken) then
        [(.registration claim.workerId claim.queue, .keyShare)]
      else []
  | .lockForRelease worker queue _, (owned : Bool) =>
      if owned then [(.registration worker queue, .update)] else []
  | .checkRegistration worker queue _ _, (found : Option _) =>
      if found.isSome then [(.registration worker queue, .update)] else []
  | .lockOrphanedWorkers queue _ _, (ids : List String) =>
      ids.map fun id => (.registration id queue, .update)
  | .lockPrunable queue _ _, (ids : List String) =>
      ids.map fun id => (.registration id queue, .update)
  | .tryAdvisoryLock worker queue, (acquired : Bool) =>
      if acquired then [(.advisory worker queue, .update)] else []
  | .registerWorkerAdmin worker queue, _ =>
      [(.advisory worker queue, .update)]
  | _, _ => []

/-- The locks of the crate's statements. -/
def rowLocks : LockModel sql Resource LockMode where
  acquires item :=
    statementLocks item.view item.stmt item.result ++
      item.changes.flatMap changeLocks
  conflicts := LockMode.conflicts
  conflicts_comm first second := by
    cases first <;> cases second <;> rfl

variable (rows : TaskConversion)

abbrev PgSession := Session sql Op Outcome

/-- A database on which any number of actors run the crate's operations. -/
abbrev PgServer := Server sql Op Outcome

abbrev PgEvent := ServerEvent Op Env Error

/-- A freshly migrated schema that nobody has used yet. -/
def idleServer : PgServer := ⟨.empty, []⟩

/-- The crate's operations interleaved over a freshly migrated schema. -/
def pgServer : Machine PgServer PgEvent :=
  Server.machine rowLocks (program rows) .empty

/-- No statement before wrote a registration. -/
def WorkersUntouched (before : List (Ran sql)) : Prop :=
  ∀ item ∈ before, workerChanges item.changes = []

/-- Earlier in its transaction a statement saw the registration as `found`
says.  A stored row is locked `FOR UPDATE` since then, and where there was
none, the advisory lock of the name is held. -/
def Saw (before : List (Ran sql)) (worker queue : String)
    (found : Timestamp → Option WorkerRow → Prop) : Prop :=
  ∃ early item, early ++ [item] <+: before ∧ WorkersUntouched early ∧
    found item.env.now (item.base.workers.get? (worker, queue)) ∧
    ((item.base.workers.get? (worker, queue)).isSome = true →
      (Resource.registration worker queue, LockMode.update) ∈
        rowLocks.held (early ++ [item])) ∧
    ((item.base.workers.get? (worker, queue)).isSome = false →
      (Resource.advisory worker queue, LockMode.update) ∈
        rowLocks.held (early ++ [item]))

/-- A row whose heartbeat is older than the window. -/
def SeenStale (window : Duration) (now : Timestamp) (row : Option WorkerRow) :
    Prop :=
  ∃ found, row = some found ∧
    elapsedAtLeast window now found.lastSeen = true

/-- What an operation did before the statements that decide over a
registration or over the claims of one. -/
def Ordered (op : Op) (before : List (Ran sql)) : Stmt → Prop
  | .insertJobs queue batch => op = .pushTasksOnConn queue batch
  | .keepAlive worker queue token =>
      op = .keepAlive worker queue token ∧ before = []
  | .registerWorkerAdmin worker queue =>
      op = .registerWorkerAdmin worker queue ∧ before = []
  | .markReleased worker queue => WorkersUntouched before ∧
      ∃ token, op = .releaseWorker queue worker token ∧
        Saw before worker queue fun _ row =>
          ∃ found, row = some found ∧ found.leaseToken = some token
  | .deleteUnreferenced queue ids => WorkersUntouched before ∧
      ∃ staleFor limit, op = .pruneWorkersBatch queue staleFor limit ∧
        ∀ id ∈ ids, Saw before id queue (SeenStale staleFor)
  | .upsertRegistration worker queue storage layers token =>
      WorkersUntouched before ∧
      (Resource.advisory worker queue, LockMode.update) ∈
        rowLocks.held before ∧
      ∃ staleAfter,
        op = .registerWorker worker queue storage layers token staleAfter ∧
        Saw before worker queue fun now row =>
          row = none ∨ SeenStale staleAfter now row ∨
            ∃ found, row = some found ∧ found.leaseToken = some token
  | .recoverOwned queue workers .staleSweep =>
      ∃ staleAfter, op = .reenqueueOrphaned queue staleAfter ∧
        ∀ id ∈ workers, Saw before id queue (SeenStale staleAfter)
  | .recoverOwned queue workers .takeover =>
      ∃ worker storage layers token staleAfter,
        op = .registerWorker worker queue storage layers token staleAfter ∧
        workers = [worker] ∧
        Saw before worker queue fun now row => SeenStale staleAfter now row ∨
          ∃ found, row = some found ∧ found.leaseToken ≠ some token
  | .recoverOwned queue _ .release =>
      ∃ worker token, op = .releaseWorker queue worker token
  | _ => True

theorem written_append (first second : List (Ran sql)) :
    written (first ++ second) = written first ++ written second := by
  simp [written]

/-- Issue a statement in the view its transaction has by then. -/
theorem issuesAfter_query {α : Type} {Q : List (Ran sql) → Stmt → Prop}
    {operation : String} {stmt : Stmt} {next : stmt.Result → Tx α}
    {post : List (Ran sql) → α → Prop} {before : List (Ran sql)}
    (hissued : Q before stmt)
    (hnext : ∀ (env : Env) (base : Db) result changes,
      ∀ hexec : stmt.exec env (base.apply (written before)) =
          .ok (result, changes),
      (next result).IssuesAfter Q post
        (before ++ [⟨stmt, env, base, _, result, changes, hexec⟩])) :
    (query operation stmt >>= next).IssuesAfter Q post before := by
  refine ⟨hissued, ?_⟩
  rintro ⟨stmt, env, base, view, result, changes, hexec⟩ hstmt hview
  dsimp only at hstmt hview
  subst hstmt hview
  exact hnext env base result changes hexec

/-- Issue a statement that writes nothing before anything was written. -/
theorem issuesAfter_read {α : Type} {Q : List (Ran sql) → Stmt → Prop}
    {operation : String} {stmt : Stmt} {next : stmt.Result → Tx α}
    {post : List (Ran sql) → α → Prop} {before : List (Ran sql)}
    (hread : stmt.readOnly = true) (hbefore : written before = [])
    (hissued : Q before stmt)
    (hnext : ∀ (env : Env) (base : Db) result, ∀ hexec : stmt.exec env base = .ok (result, []),
      (next result).IssuesAfter Q post
        (before ++ [⟨stmt, env, base, base, result, [], hexec⟩])) :
    (query operation stmt >>= next).IssuesAfter Q post before := by
  apply issuesAfter_query hissued
  intro env base result changes hexec
  have hnil : changes = [] := readOnly_exec hread hexec
  subst hnil
  have hview : base.apply (written before) = base := by rw [hbefore]; rfl
  revert hexec
  rw [hview]
  exact hnext env base result

/-- What an operation that reaches its commit has done: a registration has
written its row. -/
def Completed (op : Op) (trace : List (Ran sql)) : Prop :=
  match op with
  | .registerWorker worker queue storage layers token _ =>
      ∃ item ∈ trace,
        item.stmt = .upsertRegistration worker queue storage layers token
  | _ => True

/-- The statements that no registration depends on. -/
def Stmt.plain : Stmt → Bool
  | .insertJobs .. | .keepAlive .. | .registerWorkerAdmin ..
  | .markReleased .. | .deleteUnreferenced .. | .upsertRegistration ..
  | .recoverOwned .. => false
  | _ => true

theorem ordered_of_plain {op : Op} (before : List (Ran sql)) (stmt : Stmt)
    (h : stmt.plain = true) : Ordered op before stmt := by
  cases stmt with
  | insertJobs | keepAlive | registerWorkerAdmin | markReleased
  | deleteUnreferenced | upsertRegistration | recoverOwned => cases h
  | _ => trivial

/-- A body whose statements are all plain. -/
def Plain {α : Type} (body : Tx α) : Prop :=
  body.Only fun stmt => stmt.plain = true

theorem requireWorker_plain (worker queue : String) (token : Option String) :
    Plain (requireWorker worker queue token) := by
  refine ⟨rfl, ?_⟩
  intro registration
  cases token with
  | none => trivial
  | some presented => cases registration <;> trivial

theorem claimedTasks_plain (claimed : List JobRow) :
    Plain (claimedTasks rows claimed) := by
  induction claimed with
  | nil => trivial
  | cons row rest ih =>
      rw [claimedTasks]
      cases rows.tryIntoTaskCompact row with
      | ok task => exact Program.only_bind ih fun _ => trivial
      | error message => exact ⟨rfl, fun _ => ih⟩

theorem lockTaskWithToken_plain (taskId worker : String)
    (queue leaseToken : Option String) :
    Plain (lockTaskWithToken rows taskId worker queue leaseToken) := by
  rw [lockTaskWithToken, query_bind]
  refine ⟨rfl, ?_⟩
  intro located
  apply Program.only_bind
  · cases located with
    | none => trivial
    | some found => exact requireWorker_plain worker found leaseToken
  · intro _
    rw [query_bind]
    refine ⟨rfl, ?_⟩
    intro locked
    cases locked with
    | nil => trivial
    | cons row rest =>
        dsimp only [lockedTask]
        cases claimedTaskRow rows row <;> trivial

theorem ackTask_plain (update : AckTaskUpdate) : Plain (ackTask update) := by
  unfold ackTask
  have hwrite : ∀ count : Nat, Plain
      (if count = 0 then (.rollback (.staleAcknowledgement update.taskId
        update.queue update.workerId) : Tx Unit) else return ()) := by
    intro count
    split <;> trivial
  split
  · refine ⟨rfl, ?_⟩
    intro registration
    rw [Program.pure_eq]
    change Plain (ite _ _ _)
    split
    · exact ⟨rfl, hwrite⟩
    · trivial
  · exact ⟨rfl, hwrite⟩

theorem failUndecodableTask_plain (taskId worker : String)
    (lockAt attempts : Int) (error : String) (leaseToken : Option String) :
    Plain (failUndecodableTask taskId worker lockAt attempts error
      leaseToken) := by
  cases leaseToken with
  | none => exact ⟨rfl, fun _ => trivial⟩
  | some token =>
      refine ⟨rfl, ?_⟩
      intro located
      cases located with
      | none => trivial
      | some queue =>
          refine ⟨rfl, ?_⟩
          intro registration
          rw [Program.pure_eq]
          change Plain (ite _ _ _)
          split
          · exact ⟨rfl, fun _ => trivial⟩
          · trivial

theorem WorkersUntouched.nil : WorkersUntouched [] := by
  intro item hitem
  cases hitem

theorem WorkersUntouched.read {stmt : Stmt} {env : Env} {base : Db}
    {result : stmt.Result} (hexec : stmt.exec env base = .ok (result, [])) :
    WorkersUntouched [⟨stmt, env, base, base, result, [], hexec⟩] := by
  intro item hitem
  obtain rfl := List.mem_singleton.mp hitem
  rfl

theorem WorkersUntouched.append {before : List (Ran sql)} {item : Ran sql}
    (h : WorkersUntouched before) (hitem : workerChanges item.changes = []) :
    WorkersUntouched (before ++ [item]) := by
  intro other hother
  rcases List.mem_append.mp hother with hbefore | hlast
  · exact h other hbefore
  · obtain rfl := List.mem_singleton.mp hlast
    exact hitem

/-- A registration that a statement locked `FOR UPDATE` was seen by it. -/
theorem saw_locked {early : List (Ran sql)} {item : Ran sql}
    {before : List (Ran sql)} (hwithin : early ++ [item] <+: before)
    (hearly : WorkersUntouched early) {worker queue : String} {found : Timestamp → Option WorkerRow → Prop}
    (hfound : found item.env.now (item.base.workers.get? (worker, queue)))
    (hstored : (item.base.workers.get? (worker, queue)).isSome = true)
    (hlock : (Resource.registration worker queue, LockMode.update) ∈
      statementLocks item.view item.stmt item.result) :
    Saw before worker queue found := by
  refine ⟨early, item, hwithin, hearly, hfound, ?_, ?_⟩
  · intro _
    apply List.mem_flatMap.mpr
    exact ⟨item, by simp, List.mem_append_left _ hlock⟩
  · intro hnone
    rw [hstored] at hnone
    cases hnone

theorem Saw.mono {before later : List (Ran sql)} {worker queue : String}
    {found : Timestamp → Option WorkerRow → Prop}
    (h : Saw before worker queue found) (hwithin : before <+: later) :
    Saw later worker queue found := by
  obtain ⟨early, item, hearly, hrest⟩ := h
  exact ⟨early, item, hearly.trans hwithin, hrest⟩

/-- A recovery writes job rows only. -/
theorem recoverOwned_ordered {op : Op} {queue : String}
    {workers : List String} {recovery : Recovery}
    {before : List (Ran sql)} {post : List (Ran sql) → Nat → Prop}
    (hordered : Ordered op before (.recoverOwned queue workers recovery))
    (hnone : post before 0)
    (hnext : ∀ item : Ran sql, workerChanges item.changes = [] →
      ∀ count, post (before ++ [item]) count) :
    (recoverOwned queue workers recovery).IssuesAfter (Ordered op) post
      before := by
  unfold recoverOwned
  split
  · exact hnone
  · refine ⟨hordered, ?_⟩
    rintro ⟨stmt, env, base, view, count, changes, hexec⟩ hstmt hview
    dsimp only at hstmt
    subst hstmt
    apply hnext
    apply List.eq_nil_iff_forall_not_mem.mpr
    intro change hmem
    have hstep := (exec_executed hexec).workerStep hmem
    cases hstep

theorem mem_selectedIds {db : Db} {queue : String} {selected : List WorkerRow}
    (hselected : ∀ row ∈ selected, row ∈ db.workers.rows ∧
      row.workerType = queue) {id : String}
    (hid : id ∈ selected.map WorkerRow.id) :
    ∃ row ∈ selected, db.workers.get? (id, queue) = some row := by
  obtain ⟨row, hrow, rfl⟩ := List.mem_map.mp hid
  obtain ⟨hstored, hqueue⟩ := hselected row hrow
  refine ⟨row, hrow, ?_⟩
  have hget := Table.get?_of_mem hstored
  rwa [WorkerRow.key, hqueue] at hget

theorem mem_orphanSelection {env : Env} {db : Db} {queue : String}
    {staleAfter : Duration} {limit : Nat} {row : WorkerRow}
    (h : row ∈ orphanSelection env db queue staleAfter limit) :
    row ∈ db.workers.rows ∧ row.workerType = queue ∧
      elapsedAtLeast staleAfter env.now row.lastSeen = true := by
  have hmem := List.mem_of_mem_take h
  rw [List.mem_insertionSort, List.mem_filter] at hmem
  simp only [Bool.and_eq_true, decide_eq_true_eq] at hmem
  exact ⟨hmem.1, hmem.2.1.1.1, hmem.2.1.1.2⟩

theorem mem_prunableSelection {env : Env} {db : Db} {queue : String}
    {staleFor : Duration} {limit : Nat} {row : WorkerRow}
    (h : row ∈ prunableSelection env db queue staleFor limit) :
    row ∈ db.workers.rows ∧ row.workerType = queue ∧
      elapsedAtLeast staleFor env.now row.lastSeen = true := by
  have hmem := List.mem_of_mem_take h
  rw [List.mem_insertionSort, List.mem_filter] at hmem
  simp only [Bool.and_eq_true, decide_eq_true_eq] at hmem
  exact ⟨hmem.1, hmem.2.1.1.1, hmem.2.1.1.2⟩

/-- A locking selection of stale registrations has seen each of them. -/
theorem saw_stale {item : Ran sql} {queue : String} {window : Duration}
    {ids : List String} {selected : List WorkerRow}
    (hids : ids = selected.map WorkerRow.id)
    (hlocks : statementLocks item.view item.stmt item.result =
      ids.map fun id => (.registration id queue, .update))
    (hselected : ∀ row ∈ selected, row ∈ item.base.workers.rows ∧
      row.workerType = queue ∧
      elapsedAtLeast window item.env.now row.lastSeen = true) :
    ∀ id ∈ ids, Saw [item] id queue (SeenStale window) := by
  intro id hid
  have hmapped := hids ▸ hid
  obtain ⟨row, hrow, hget⟩ := mem_selectedIds
    (fun row hrow => ⟨(hselected row hrow).1, (hselected row hrow).2.1⟩)
    hmapped
  have hwithin : [] ++ [item] <+: [item] := List.prefix_rfl
  refine saw_locked hwithin .nil ⟨row, hget, (hselected row hrow).2.2⟩ ?_ ?_
  · rw [hget]
    rfl
  · rw [hlocks]
    exact List.mem_map.mpr ⟨id, hid, rfl⟩

theorem reenqueueOrphaned_ordered (queue : String) (staleAfter : Duration) :
    (program rows (.reenqueueOrphaned queue staleAfter)).IssuesAfter
      (Ordered (.reenqueueOrphaned queue staleAfter)) (fun _ _ => True) [] := by
  apply Program.issuesAfter_bind
  apply issuesAfter_read rfl rfl (ordered_of_plain _ _ rfl)
  intro env base ids hexec
  refine recoverOwned_ordered ?_ trivial fun _ _ _ => trivial
  refine ⟨staleAfter, rfl, ?_⟩
  have hplan := (exec_ok hexec).1
  simp only [Stmt.plan, Except.ok.injEq, Prod.mk.injEq, and_true] at hplan
  exact saw_stale hplan.symm rfl fun row hrow => mem_orphanSelection hrow

theorem pruneWorkersBatch_ordered (queue : String) (staleFor : Duration)
    (limit : Nat) :
    (program rows (.pruneWorkersBatch queue staleFor limit)).IssuesAfter
      (Ordered (.pruneWorkersBatch queue staleFor limit)) (fun _ _ => True)
      [] := by
  apply Program.issuesAfter_bind
  apply issuesAfter_read rfl rfl (ordered_of_plain _ _ rfl)
  intro env base ids hexec
  have hplan := (exec_ok hexec).1
  simp only [Stmt.plan, Except.ok.injEq, Prod.mk.injEq, and_true] at hplan
  split
  · trivial
  · apply issuesAfter_query
    · refine ⟨?_, staleFor, limit, rfl,
        saw_stale hplan.symm rfl fun row hrow => mem_prunableSelection hrow⟩
      intro item hitem
      obtain rfl := List.mem_singleton.mp hitem
      rfl
    · intro env base count changes hexec
      trivial

theorem releaseWorker_ordered (queue worker token : String) :
    (program rows (.releaseWorker queue worker token)).IssuesAfter
      (Ordered (.releaseWorker queue worker token)) (fun _ _ => True) [] := by
  apply Program.issuesAfter_bind
  apply issuesAfter_read rfl rfl (ordered_of_plain _ _ rfl)
  intro env base owned hexec
  have hplan := (exec_ok hexec).1
  simp only [Stmt.plan, Except.ok.injEq, Prod.mk.injEq, and_true] at hplan
  cases owned with
  | false => trivial
  | true =>
      obtain ⟨row, hget, htoken⟩ := (Option.any_eq_true _ _).mp hplan
      let locked : Ran sql :=
        ⟨.lockForRelease worker queue token, env, base, base, true, [], hexec⟩
      have hsaw : Saw [locked] worker queue fun _ row =>
          ∃ found, row = some found ∧ found.leaseToken = some token := by
        have hwithin : [] ++ [locked] <+: [locked] := List.prefix_rfl
        refine saw_locked hwithin .nil ⟨row, hget, by simpa using htoken⟩ ?_ ?_
        · change (base.workers.get? (worker, queue)).isSome = true
          rw [hget]
          rfl
        · exact List.mem_cons_self
      have hmark : ∀ before : List (Ran sql), [locked] <+: before →
          WorkersUntouched before →
          ∀ count : Nat, Program.IssuesAfter
            (Ordered (.releaseWorker queue worker token))
            (fun trace (value : Nat) => Program.IssuesAfter
              (Ordered (.releaseWorker queue worker token))
              (fun _ _ => True) trace (pure (Outcome.count value))) before
            (do
              let _ ← query "releasing worker registration"
                (.markReleased worker queue)
              return count) := by
        intro before hwithin huntouched count
        apply issuesAfter_query
        · exact ⟨huntouched, token, rfl, hsaw.mono hwithin⟩
        · intro env base marked changes hexec
          trivial
      apply Program.issuesAfter_bind
      apply recoverOwned_ordered
      · exact ⟨worker, token, rfl⟩
      · exact hmark _ List.prefix_rfl (.read hexec) 0
      · intro item hitem count
        exact hmark _ (List.prefix_append _ _)
          ((WorkersUntouched.read hexec).append hitem) count

/-- A registration has looked at the incumbent, under the advisory lock of
the name. -/
theorem registerRow_ordered {worker queue storage layers token : String}
    {staleAfter : Duration} {before : List (Ran sql)}
    (huntouched : WorkersUntouched before)
    (hadvisory : (Resource.advisory worker queue, LockMode.update) ∈
      rowLocks.held before)
    (hsaw : Saw before worker queue fun now row =>
      row = none ∨ SeenStale staleAfter now row ∨
        ∃ found, row = some found ∧ found.leaseToken = some token) :
    (registerRow worker queue storage layers token).IssuesAfter
      (Ordered (.registerWorker worker queue storage layers token staleAfter))
      (fun trace _ => Program.IssuesAfter
        (Ordered (.registerWorker worker queue storage layers token staleAfter))
        (fun trace _ => Completed
          (.registerWorker worker queue storage layers token staleAfter) trace)
        trace (pure Outcome.done)) before := by
  apply issuesAfter_query
  · exact ⟨huntouched, hadvisory, staleAfter, rfl, hsaw⟩
  · intro env base count changes hexec
    exact ⟨_, List.mem_append_right _ List.mem_cons_self, rfl⟩

theorem registerWorker_ordered (worker queue storage layers token : String)
    (staleAfter : Duration) :
    (program rows (.registerWorker worker queue storage layers token
        staleAfter)).IssuesAfter
      (Ordered (.registerWorker worker queue storage layers token staleAfter))
      (fun trace _ => Completed
        (.registerWorker worker queue storage layers token staleAfter) trace)
      [] := by
  apply Program.issuesAfter_bind
  apply issuesAfter_read rfl rfl (ordered_of_plain _ _ rfl)
  intro env base acquired hexec
  cases acquired with
  | false => trivial
  | true =>
      let advisory : Ran sql :=
        ⟨.tryAdvisoryLock worker queue, env, base, base, true, [], hexec⟩
      have hadvisory : ∀ later, (Resource.advisory worker queue,
          LockMode.update) ∈ rowLocks.held (advisory :: later) := by
        intro later
        exact List.mem_flatMap.mpr
          ⟨advisory, List.mem_cons_self, List.mem_cons_self⟩
      apply issuesAfter_read rfl rfl (ordered_of_plain _ _ rfl)
      intro env base existing hexec
      let check : Ran sql :=
        ⟨.checkRegistration worker queue token staleAfter, env, base, base,
          existing, [], hexec⟩
      have huntouched : WorkersUntouched [advisory, check] :=
        (WorkersUntouched.read advisory.executed).append rfl
      have hwithin : [advisory] ++ [check] <+: [advisory, check] :=
        List.prefix_rfl
      have hplan := (exec_ok hexec).1
      simp only [Stmt.plan, Except.ok.injEq, Prod.mk.injEq, and_true] at hplan
      cases hget : base.workers.get? (worker, queue) with
      | none =>
          rw [hget] at hplan
          subst hplan
          apply registerRow_ordered huntouched (hadvisory _)
          refine ⟨[advisory], check, hwithin, .read advisory.executed,
            Or.inl hget, ?_, ?_⟩
          · intro hsome
            have hnone : (base.workers.get? (worker, queue)).isSome = true :=
              hsome
            rw [hget] at hnone
            cases hnone
          · intro _
            exact hadvisory _
      | some row =>
          rw [hget] at hplan
          subst hplan
          have hsaw : ∀ found : Timestamp → Option WorkerRow → Prop,
              found env.now (some row) →
              Saw [advisory, check] worker queue found := by
            intro found hfound
            refine saw_locked hwithin (.read advisory.executed)
              (hget.symm ▸ hfound) ?_ ?_
            · change (base.workers.get? (worker, queue)).isSome = true
              rw [hget]
              rfl
            · exact List.mem_cons_self
          simp only [Option.map_some, registerOver]
          split
          · rename_i hallowed
            have hadmitted : Saw [advisory, check] worker queue fun now row =>
                row = none ∨ SeenStale staleAfter now row ∨
                  ∃ found, row = some found ∧
                    found.leaseToken = some token := by
              apply hsaw
              rw [Bool.or_eq_true, decide_eq_true_eq] at hallowed
              rcases hallowed with htoken | hstale
              · exact Or.inr (Or.inr ⟨row, rfl, htoken⟩)
              · exact Or.inr (Or.inl ⟨row, rfl, hstale⟩)
            split
            · rename_i hlost
              apply Program.issuesAfter_bind
              apply recoverOwned_ordered
              · refine ⟨worker, storage, layers, token, staleAfter, rfl, rfl, ?_⟩
                apply hsaw
                rw [Bool.or_eq_true, decide_eq_true_eq] at hlost
                rcases hlost with htoken | hstale
                · exact Or.inr ⟨row, rfl, htoken⟩
                · exact Or.inl ⟨row, rfl, hstale⟩
              · exact registerRow_ordered huntouched (hadvisory _) hadmitted
              · intro item hitem count
                exact registerRow_ordered (huntouched.append hitem)
                  (hadvisory _) (hadmitted.mono (List.prefix_append _ _))
            · exact registerRow_ordered huntouched (hadvisory _) hadmitted
          · trivial

/-- Every operation issues its statements in this order. -/
theorem program_ordered (op : Op) :
    (program rows op).IssuesAfter (Ordered op)
      (fun trace _ => Completed op trace) [] := by
  have hplain : ∀ {α : Type} {first : Tx α} {f : α → Outcome},
      Plain first →
      (first >>= fun value => pure (f value)).IssuesAfter (Ordered op)
        (fun _ _ => True) [] := by
    intro α first f hfirst
    have hbound : Plain (first >>= fun value => pure (f value)) :=
      Program.only_bind hfirst fun _ => trivial
    exact hbound.issuesAfter (fun trace stmt => ordered_of_plain trace stmt) []
  cases op with
  | pushTasksOnConn queue batch =>
      apply Program.issuesAfter_bind
      unfold pushTasksOnConn
      split
      · trivial
      · apply issuesAfter_query
        · rfl
        · intro env base inserted changes hexec
          split <;> trivial
  | fetchNext worker queue bufferSize token =>
      apply hplain
      apply Program.only_bind (requireWorker_plain worker queue token)
      intro _
      exact ⟨rfl, claimedTasks_plain rows⟩
  | queueById queue ids worker token =>
      apply hplain
      apply Program.only_bind (requireWorker_plain worker queue token)
      intro _
      exact ⟨rfl, claimedTasks_plain rows⟩
  | getJobs worker queue count => exact hplain ⟨rfl, fun _ => trivial⟩
  | startTask claim => exact hplain ⟨rfl, fun _ => trivial⟩
  | lockTaskWithToken taskId worker queue token =>
      exact hplain (lockTaskWithToken_plain rows taskId worker queue token)
  | acknowledge token res parts =>
      apply hplain
      unfold acknowledge
      cases ackUpdate token res parts with
      | ok update => exact ackTask_plain update
      | error error => trivial
  | failUndecodableTask taskId worker lockAt attempts error token =>
      exact hplain
        (failUndecodableTask_plain taskId worker lockAt attempts error token)
  | releaseWorker queue worker token =>
      exact releaseWorker_ordered rows queue worker token
  | reenqueueOrphaned queue staleAfter =>
      exact reenqueueOrphaned_ordered rows queue staleAfter
  | registerWorker worker queue storage layers token staleAfter =>
      exact registerWorker_ordered rows worker queue storage layers token
        staleAfter
  | keepAlive worker queue token =>
      apply Program.issuesAfter_bind
      apply issuesAfter_query
      · exact ⟨rfl, rfl⟩
      · intro env base count changes hexec
        split <;> trivial
  | registerWorkerAdmin worker queue =>
      apply Program.issuesAfter_bind
      apply issuesAfter_query
      · exact ⟨rfl, rfl⟩
      · intro env base count changes hexec
        trivial
  | pruneWorkersBatch queue staleFor limit =>
      exact pruneWorkersBatch_ordered rows queue staleFor limit
  | purgeTerminalBatch queue cutoff limit =>
      exact hplain ⟨rfl, fun _ => trivial⟩

end ApalisPostgres
