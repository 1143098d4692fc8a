/-
Pruning registrations while others claim.  A prune locks its candidates and
deletes those of them that no job names.  A claim shares its registration
until it is committed, so nothing that a committed claim names is deleted.
-/
import ApalisPostgres.JobWrites
import ApalisPostgres.RowRuns
import ApalisPostgres.StaleWindow

namespace ApalisPostgres

open RowStore

variable {rows : TaskConversion}

theorem referenced_iff {db : Db} {worker queue : String} :
    referenced db (worker, queue) = true ↔
      ∃ id row, db.jobs.get? id = some row ∧ row.lockBy = some worker ∧
        row.jobType = queue := by
  rw [referenced, List.any_eq_true]
  constructor
  · rintro ⟨row, hrow, hboth⟩
    simp only [Bool.and_eq_true, decide_eq_true_eq] at hboth
    exact ⟨row.id, row, Table.get?_of_mem hrow, hboth⟩
  · rintro ⟨id, row, hget, howner, hqueue⟩
    exact ⟨row, Table.mem_of_get? hget, by simp [howner, hqueue]⟩

/-- A statement of the trace gave a job to the worker and shares the worker's
registration since. -/
def ClaimedFor (trace : List (Ran sql)) (worker queue : String) : Prop :=
  ∃ item ∈ trace, ∃ change ∈ jobChanges item.changes, ∃ row,
    change.after = some row ∧ row.lockBy = some worker ∧
      row.jobType = queue ∧
      (Resource.registration worker queue, LockMode.keyShare) ∈
        rowLocks.acquires item

theorem ClaimedFor.mono {trace : List (Ran sql)} {worker queue : String}
    (h : ClaimedFor trace worker queue) (item : Ran sql) :
    ClaimedFor (trace ++ [item]) worker queue := by
  obtain ⟨claim, hclaim, hrest⟩ := h
  exact ⟨claim, List.mem_append_left _ hclaim, hrest⟩

/-- A row gets a new owner under a share of the owner's registration. -/
theorem keyShare_of_change {item : Ran sql} {change : JobChange}
    {row : JobRow} {worker : String}
    (hchange : change ∈ jobChanges item.changes)
    (hafter : change.after = some row) (howner : row.lockBy = some worker)
    (hnew : change.before.bind JobRow.lockBy ≠ some worker) :
    (Resource.registration worker row.jobType, LockMode.keyShare) ∈
      rowLocks.acquires item := by
  apply List.mem_append_right
  refine List.mem_flatMap.mpr ⟨_, mem_jobChanges.mp hchange, ?_⟩
  apply List.mem_cons_of_mem
  rw [hafter]
  dsimp only
  rw [howner, if_neg hnew]
  exact List.mem_cons_self

section

variable {server : PgServer} {index : Nat} {session : PgSession}

/-- A job of a worker was the worker's before, or the session claimed it. -/
theorem owner_cases (h : (pgServer rows).Reachable server)
    (hsession : server.sessions[index]? = some session)
    (hrunning : session.stage.isRunning = true) {id : String} {row : JobRow}
    (hrow : (server.db.apply session.pending).jobs.get? id = some row)
    {worker : String} (howner : row.lockBy = some worker) :
    (∃ old, server.db.jobs.get? id = some old ∧
        old.lockBy = some worker ∧ old.jobType = row.jobType) ∨
      ClaimedFor session.trace worker row.jobType := by
  refine reachable_rowsKept (fun _ trace stored _ row =>
    ∀ worker, row.lockBy = some worker →
      (∃ old, stored = some old ∧ old.lockBy = some worker ∧
        old.jobType = row.jobType) ∨ ClaimedFor trace worker row.jobType)
    ?_ ?_ h index session hsession hrunning id row hrow worker howner
  · intro _ _ _ row worker howner
    exact Or.inl ⟨row, rfl, howner, rfl⟩
  · intro _ before item stored id row _ hfound hrow worker howner
    have hexecuted := exec_executed item.executed
    rcases hexecuted.job_cases id with
      ⟨change, hchange, rfl, hafter⟩ | ⟨_, hsame⟩
    · have hleft : change.after = some row := hafter.symm.trans hrow
      by_cases hold : change.before.bind JobRow.lockBy = some worker
      · obtain ⟨old, hbefore, hlock⟩ := Option.bind_eq_some_iff.mp hold
        have hstep := hexecuted.jobStep hchange
        have hqueue := (hstep.fixed_columns hbefore hleft).2.1
        have hview : item.view.jobs.get? change.key = some old := by
          rw [← hstep.reads.before_eq, hbefore]
        rw [hqueue]
        exact (hfound old hview worker hlock).imp_right fun hclaims =>
          hclaims.mono item
      · exact Or.inr ⟨item, by simp, change, hchange, row, hleft, howner,
          rfl, keyShare_of_change hchange hleft howner hold⟩
    · exact (hfound row (hsame.symm.trans hrow) worker howner).imp_right
        fun hclaims => hclaims.mono item

theorem ClaimedFor.held {trace : List (Ran sql)} {worker queue : String}
    (h : ClaimedFor trace worker queue) :
    (Resource.registration worker queue, LockMode.keyShare) ∈
      rowLocks.held trace := by
  obtain ⟨item, hitem, _, _, _, _, _, _, hlock⟩ := h
  exact List.mem_flatMap.mpr ⟨item, hitem, hlock⟩

/-- Nobody commits a claim on a registration that is locked for update. -/
theorem unreferenced_guarded (worker queue : String) :
    Guarded rowLocks (program rows) .empty
      (fun db => referenced db (worker, queue) = false)
      (fun lock => lock = (.registration worker queue, .update)) := by
  intro server index session value h hsession hstage hfree hclaimed
  have hrunning : session.stage.isRunning = true := by rw [hstage]; rfl
  have hreferenced : referenced (server.db.apply session.pending)
      (worker, queue) = true := (Bool.not_eq_false _).mp hclaimed
  obtain ⟨id, row, hrow, howner, rfl⟩ := referenced_iff.mp hreferenced
  refine ⟨(.registration worker row.jobType, .keyShare), ?_, ?_⟩
  · rcases owner_cases h hsession hrunning hrow howner with
      ⟨old, hold, hlock, hqueue⟩ | hclaims
    · have hstill : referenced server.db (worker, row.jobType) = true :=
        referenced_iff.mpr ⟨id, old, hold, hlock, hqueue⟩
      rw [hfree] at hstill
      cases hstill
    · exact hclaims.held
  · rintro guarded rfl
    simp [LockModel.clash, rowLocks, LockMode.conflicts]

theorem update_of_deleted {item : Ran sql} {change : WorkerChange}
    {worker queue : String} (hchange : change ∈ workerChanges item.changes)
    (hkey : change.key = (worker, queue)) (hnone : change.after = none) :
    (Resource.registration worker queue, LockMode.update) ∈
      rowLocks.acquires item := by
  apply List.mem_append_right
  refine List.mem_flatMap.mpr ⟨_, mem_workerChanges.mp hchange, ?_⟩
  simp [changeLocks, hkey, hnone]

/-- A registration that somebody shares or holds is not deleted. -/
theorem present_guarded (worker queue : String) :
    Guarded rowLocks (program rows) .empty
      (fun db => (db.workers.get? (worker, queue)).isSome = true)
      (fun lock => lock.1 = .registration worker queue) := by
  intro server index session value h hsession hstage hpresent hlost
  have hrunning : session.stage.isRunning = true := by rw [hstage]; rfl
  refine ⟨(.registration worker queue, .update), ?_,
    fun guarded hguarded => clash_of_update hguarded⟩
  rcases registration_cases h hsession hrunning (worker, queue) with
    ⟨_, hsame⟩ | ⟨before, item, change, hkey, hwrite⟩
  · exact absurd ((congrArg Option.isSome hsame).trans hpresent) hlost
  · have hafter := hwrite.after_eq
    rw [hkey] at hafter
    have hnone : change.after = none := by
      cases hleft : change.after with
      | none => rfl
      | some row =>
          rw [hleft] at hafter
          exact absurd (congrArg Option.isSome hafter) hlost
    exact hwrite.issued.subset_held (List.mem_flatMap.mpr
      ⟨item, by simp, update_of_deleted hwrite.mem hkey hnone⟩)

/-- The statements of a prune write no job. -/
theorem pruneWorkersBatch_only (queue : String) (staleFor : Duration)
    (limit : Nat) :
    (program rows (.pruneWorkersBatch queue staleFor limit)).Only fun stmt =>
      ∀ env view change, ¬ JobStep env view stmt change := by
  refine Program.only_bind ?_ fun _ => trivial
  refine Program.only_bind ⟨?_, fun _ => trivial⟩ ?_
  · intro env view change hstep
    cases hstep
  · intro candidates
    split
    · trivial
    · refine Program.only_bind ⟨?_, fun _ => trivial⟩ fun _ => trivial
      intro env view change hstep
      cases hstep

/-- What every statement of a body satisfies holds of what its session ran. -/
theorem session_only (h : (pgServer rows).Reachable server)
    (hsession : server.sessions[index]? = some session) {P : Stmt → Prop}
    (honly : (program rows session.op).Only P) {item : Ran sql}
    (hitem : item ∈ session.trace) : P item.stmt := by
  have hdisciplined := Server.reachable_disciplined h hsession
    (honly.issuesAfter (fun (_ : List (Ran sql)) _ h => h) [])
  obtain ⟨before, later, htrace⟩ := List.append_of_mem hitem
  have hissued : session.Issued before item := by
    rw [Session.Issued, htrace]
    exact ⟨later, by simp⟩
  exact (hdisciplined.issued before item hissued).1

theorem prune_jobs_untouched (h : (pgServer rows).Reachable server)
    (hsession : server.sessions[index]? = some session) {queue : String}
    {staleFor : Duration} {limit : Nat}
    (hop : session.op = .pruneWorkersBatch queue staleFor limit)
    {item : Ran sql} (hitem : item ∈ session.trace) :
    jobChanges item.changes = [] := by
  have hnone := session_only h hsession
    (by rw [hop]; exact pruneWorkersBatch_only queue staleFor limit) hitem
  apply List.eq_nil_iff_forall_not_mem.mpr
  intro change hchange
  exact hnone _ _ change ((exec_executed item.executed).jobStep hchange)

/-- How a session comes to remove a registration: it is a prune, it locked the
row when it was stale, and it found no job that names it when it deleted
it. -/
structure Prunes (session : PgSession) (db : Db) (worker queue : String)
    (row : WorkerRow) : Prop where
  op : ∃ staleFor limit,
    session.op = .pruneWorkersBatch queue staleFor limit ∧
    ∃ early seen, session.Issued early seen ∧
      seen.base.workers.get? (worker, queue) = some row ∧
      elapsedAtLeast staleFor seen.env.now row.lastSeen = true ∧
      (Resource.registration worker queue, LockMode.update) ∈
        rowLocks.held (early ++ [seen])
  deletion : ∃ before item ids, session.Issued before item ∧
    item.stmt = .deleteUnreferenced queue ids ∧
    item.base.workers.get? (worker, queue) = some row ∧
    referenced item.base (worker, queue) = false
  unreferenced : referenced db (worker, queue) = false

/-- The jobs a prune sees are the committed ones. -/
theorem prune_view_jobs (h : (pgServer rows).Reachable server)
    (hsession : server.sessions[index]? = some session) {queue : String}
    {staleFor : Duration} {limit : Nat}
    (hop : session.op = .pruneWorkersBatch queue staleFor limit)
    {before : List (Ran sql)} {item : Ran sql}
    (hissued : session.Issued before item) :
    item.view.jobs = item.base.jobs := by
  rw [(session_ordered h hsession hissued).2]
  apply Db.apply_jobs_eq
  intro change hchange
  obtain ⟨other, hother, hmem⟩ :=
    mem_written_jobs (mem_jobChanges.mpr hchange)
  have hran : other ∈ session.trace :=
    hissued.subset (List.mem_append_left _ hother)
  rw [prune_jobs_untouched h hsession hop hran] at hmem
  cases hmem

/-- The write that removes a registration is the deletion of a prune. -/
theorem RegistrationWrite.deletes {db : Db} {before : List (Ran sql)}
    {item : Ran sql} {change : WorkerChange} {worker queue : String}
    (h : RegistrationWrite session db before item change)
    (hkey : change.key = (worker, queue)) (hnone : change.after = none) :
    ∃ ids staleFor limit, item.stmt = .deleteUnreferenced queue ids ∧
      session.op = .pruneWorkersBatch queue staleFor limit ∧
      Saw before worker queue (SeenStale staleFor) ∧
      referenced item.view (worker, queue) = false := by
  have hordered := h.ordered
  have hstep := h.step
  clear h
  obtain ⟨stmt, env, base, view, result, changes, hexec⟩ := item
  cases hstep with
  | register | heartbeat _ _ | release _ | admin => cases hnone
  | @prune target ids found hfound hqueue hid hfree =>
      obtain ⟨_, staleFor, limit, hop, hsaw⟩ := hordered
      obtain ⟨hworker, htype⟩ := Prod.mk.inj hkey
      obtain rfl : target = queue := hqueue.symm.trans htype
      exact ⟨ids, staleFor, limit, rfl, hop, hsaw worker (hworker ▸ hid),
        hkey ▸ hfree⟩

/-- Only a prune removes a registration, and only as it should. -/
theorem removed_by_prune (h : (pgServer rows).Reachable server)
    (hsession : server.sessions[index]? = some session)
    (hrunning : session.stage.isRunning = true) {worker queue : String}
    {row : WorkerRow}
    (hrow : server.db.workers.get? (worker, queue) = some row)
    (hgone : (server.db.apply session.pending).workers.get?
      (worker, queue) = none) :
    Prunes session server.db worker queue row := by
  rcases registration_cases h hsession hrunning (worker, queue) with
    ⟨_, hsame⟩ | ⟨before, item, change, hkey, hwrite⟩
  · rw [hsame, hrow] at hgone
    cases hgone
  · have hafter := hwrite.after_eq
    have hbase := hwrite.base_eq
    rw [hkey, hgone] at hafter
    rw [hkey, hrow] at hbase
    obtain ⟨ids, staleFor, limit, hstmt, hop, hsaw, hfree⟩ :=
      hwrite.deletes hkey hafter.symm
    have hlock : (Resource.registration worker queue, LockMode.update) ∈
        rowLocks.held (before ++ [item]) :=
      List.mem_flatMap.mpr ⟨item, by simp,
        update_of_deleted hwrite.mem hkey hafter.symm⟩
    obtain ⟨early, seen, hseen, _, hseenRow, hstale, hlocked⟩ :=
      hsaw.still h hsession hrunning hwrite.issued
    rw [hrow] at hseenRow hstale hlocked
    obtain ⟨found, hfound, helapsed⟩ := hstale
    obtain rfl := Option.some.inj hfound
    rw [referenced, prune_view_jobs h hsession hop hwrite.issued] at hfree
    exact ⟨⟨staleFor, limit, hop, early, seen, hseen, hseenRow, helapsed,
        hlocked rfl⟩,
      ⟨before, item, ids, hwrite.issued, hstmt, hbase, hfree⟩,
      (unreferenced_guarded worker queue).stable h hsession hrunning
        hwrite.issued hlock rfl hfree⟩

/-- A claim finds the registration it names. -/
theorem claim_registered {item : Ran sql} {change : JobChange} {row : JobRow}
    {worker : String} (hchange : change ∈ jobChanges item.changes)
    (hafter : change.after = some row) (howner : row.lockBy = some worker) :
    (item.view.workers.get? (worker, row.jobType)).isSome = true := by
  have hexecuted := exec_executed item.executed
  have hworkers : (item.view.apply item.changes).workers =
      item.view.workers := by
    apply Db.apply_workers_eq
    intro other hother
    have hstep := hexecuted.jobStep hchange
    have hworker := hexecuted.workerStep (mem_workerChanges.mpr hother)
    generalize item.stmt = stmt at hstep hworker
    cases hworker <;> cases hstep
  have hregistered := (hexecuted.row_accepted hchange hafter).2
  obtain ⟨owner, hfound⟩ := ownerRegistered_iff.mp hregistered worker howner
  rw [hworkers] at hfound
  exact Option.isSome_iff_exists.mpr ⟨owner, hfound⟩

/-- What a session claimed for a worker it commits beside the worker's
registration. -/
theorem ClaimedFor.registered (h : (pgServer rows).Reachable server)
    (hsession : server.sessions[index]? = some session)
    (hrunning : session.stage.isRunning = true) {worker queue : String}
    (hclaimed : ClaimedFor session.trace worker queue) :
    ((server.db.apply session.pending).workers.get?
      (worker, queue)).isSome = true := by
  obtain ⟨claim, hclaim, change, hchange, row, hafter, howner, rfl, hlock⟩ :=
    hclaimed
  rcases registration_cases h hsession hrunning (worker, row.jobType) with
    ⟨hnone, hsame⟩ | ⟨_, item, write, hkey, hwrite⟩
  · -- the session wrote nothing there, and its share keeps the row
    obtain ⟨before, later, htrace⟩ := List.append_of_mem hclaim
    have hissued : session.Issued before claim := by
      rw [Session.Issued, htrace]
      exact ⟨later, by simp⟩
    have hview := (session_ordered h hsession hissued).2
    have hbase : (claim.base.workers.get? (worker, row.jobType)).isSome =
        true := by
      have hfound := claim_registered hchange hafter howner
      rw [hview] at hfound
      rcases written_workers_cases claim.base before (worker, row.jobType) with
        ⟨_, hkept⟩ | ⟨item, hitem, other, hother, hkey⟩
      · rwa [hkept] at hfound
      · have hran : item ∈ session.trace :=
          hissued.subset (List.mem_append_left _ hitem)
        exact absurd hkey (hnone item hran other hother)
    have hheld : (Resource.registration worker row.jobType,
        LockMode.keyShare) ∈ rowLocks.held (before ++ [claim]) :=
      List.mem_flatMap.mpr ⟨claim, by simp, hlock⟩
    rw [hsame]
    exact (present_guarded worker row.jobType).stable h hsession hrunning
      hissued hheld rfl hbase
  · have hleft := hwrite.after_eq
    rw [hkey] at hleft
    cases hnone : write.after with
    | some found =>
        rw [hleft, hnone]
        rfl
    | none =>
        obtain ⟨_, _, _, _, hop, _⟩ := hwrite.deletes hkey hnone
        rw [prune_jobs_untouched h hsession hop hclaim] at hchange
        cases hchange

end

/-- The owner foreign key of the jobs. -/
def Db.OwnersRegistered (db : Db) : Prop :=
  ∀ id row worker, db.jobs.get? id = some row → row.lockBy = some worker →
    (db.workers.get? (worker, row.jobType)).isSome = true

theorem reachable_ownersRegistered {server : PgServer}
    (h : (pgServer rows).Reachable server) : server.db.OwnersRegistered := by
  apply h.invariant_of_reachable fun server : PgServer =>
    server.db.OwnersRegistered
  · rintro start rfl id row worker hrow
    cases hrow
  · intro state after event hreachable hstate hevent id row worker hrow howner
    have hmoves := Server.step_cases hevent
    rcases hmoves.db_cases with hsame |
      ⟨turn, writer, value, rfl, hwriter, hstage, hdb, _, _⟩
    · rw [hsame] at hrow ⊢
      exact hstate id row worker hrow howner
    · have hrunning : writer.stage.isRunning = true := by rw [hstage]; rfl
      rw [hdb] at hrow ⊢
      rcases owner_cases hreachable hwriter hrunning hrow howner with
        ⟨old, hold, hlock, hqueue⟩ | hclaimed
      · by_contra hgone
        have hstill := hstate id old worker hold hlock
        rw [hqueue] at hstill
        obtain ⟨owner, hfound⟩ := Option.isSome_iff_exists.mp hstill
        have hprunes := removed_by_prune hreachable hwriter hrunning hfound
          (Option.not_isSome_iff_eq_none.mp hgone)
        have hreferenced : referenced state.db (worker, row.jobType) = true :=
          referenced_iff.mpr ⟨id, old, hold, hlock, hqueue⟩
        rw [hprunes.unreferenced] at hreferenced
        cases hreferenced
      · exact hclaimed.registered hreachable hwriter hrunning

/-- What the deletion of a prune does. -/
def pruneEffects (selected : List WorkerRow) : List Effect :=
  selected.map fun row => .worker ⟨row.key, .prune, some row, none⟩

/-- The deletion of a prune violates nothing. -/
theorem exec_deleteUnreferenced (queue : String) (ids : List String)
    (env : Env) (db : Db) :
    sql.exec (.deleteUnreferenced queue ids) env db =
      .ok ((unreferencedSelection db queue ids).length,
        pruneEffects (unreferencedSelection db queue ids)) := by
  have hplan : Stmt.plan env db (.deleteUnreferenced queue ids) =
      .ok ((unreferencedSelection db queue ids).length,
        pruneEffects (unreferencedSelection db queue ids)) := rfl
  have hnone : (pruneEffects (unreferencedSelection db queue ids)).findSome?
      (effectViolation (db.apply (pruneEffects
        (unreferencedSelection db queue ids)))) = none := by
    rw [List.findSome?_eq_none_iff]
    intro effect heffect
    have hstep := plan_step hplan effect heffect
    obtain ⟨row, _, rfl⟩ := List.mem_map.mp heffect
    exact prune_accepted hplan hstep
  change Stmt.exec _ _ _ = _
  simp only [Stmt.exec, hplan, bind, Except.bind, hnone, pure, Except.pure]

theorem exec_lockPrunable (queue : String) (window : Duration) (limit : Nat)
    (env : Env) (db : Db) :
    sql.exec (.lockPrunable queue window limit) env db =
      .ok ((prunableSelection env db queue window limit).map WorkerRow.id,
        []) :=
  exec_of_plan_nil rfl

/-- Nothing refuses a prune. -/
theorem pruneWorkersBatch_total (queue : String) (window : Duration)
    (limit : Nat) :
    (program rows (.pruneWorkersBatch queue window limit)).Total sql := by
  constructor
  · intro env db fault hfault
    rw [exec_lockPrunable] at hfault
    cases hfault
  · intro candidates
    change (Program.Total sql
      ((if candidates.length = 0 then _ else _ : Tx PruneBatch) >>= _))
    split
    · trivial
    · refine ⟨?_, fun _ => trivial⟩
      intro env db fault hfault
      rw [exec_deleteUnreferenced] at hfault
      cases hfault

end ApalisPostgres
