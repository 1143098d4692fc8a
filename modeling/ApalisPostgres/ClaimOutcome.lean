/-
The verdict on a claim transaction.  A claim that may have committed without
being delivered is reported as such, and whoever receives that report retires
the name; every other error left no row claimed.
-/
import ApalisPostgres.Discipline
import ApalisPostgres.Dispatch

namespace ApalisPostgres

open RowStore

/-- `From<diesel::result::Error>`: a failure of the transaction itself. -/
def Error.ofTransaction (source : DieselError) : Error :=
  .database "diesel transaction begin/commit/rollback (unlabeled — use map_err inside the closure)"
    source

/-- Only these server rejections establish a rejected `COMMIT`. -/
def knownCommitRejection : Error → Bool
  | .database _ (.databaseError kind _) =>
      match kind with
      | .uniqueViolation | .foreignKeyViolation | .serializationFailure
      | .readOnlyTransaction | .notNullViolation | .checkViolation
      | .restrictViolation | .exclusionViolation => true
      | .unableToSendCommand | .closedConnection | .unknown => false
  | _ => false

def claimOutcome {α : Type} (result : Except Error α) (claimed : Bool)
    (operation : String) : Except Error α :=
  match result with
  | .error source =>
      if claimed && !knownCommitRejection source then
        .error (.claimOutcomeUnknown operation source)
      else .error source
  | .ok value => .ok value

/-- What goes wrong around the body of a claim transaction. -/
inductive ClaimFault where
  | none
  /-- no connection from the pool -/
  | checkout (message : String)
  /-- `BEGIN` fails -/
  | begin (source : DieselError)
  /-- the executor drops the work, or it panics, before `COMMIT` -/
  | interrupted (message : String)
  /-- the body failed and its `ROLLBACK` fails too -/
  | rollback (source : DieselError)
  /-- `COMMIT` fails; `applied` is what the server made of it -/
  | commit (source : DieselError) (applied : Bool)
  /-- the executor fails, or instrumentation panics, after `COMMIT` -/
  | executor (message : String)

/-- A rejection the server is known to send did not commit. -/
def ClaimFault.Honest : ClaimFault → Prop
  | .commit source applied =>
      knownCommitRejection (.ofTransaction source) = true → applied = false
  | _ => True

/-- The fault loses the answer of a `COMMIT` that the server applied. -/
def ClaimFault.losesCommit : ClaimFault → Bool
  | .commit _ applied => applied
  | .executor _ => true
  | _ => false

/-- What a claim transaction left and what its caller received. -/
structure ClaimCall (α : Type) where
  db : Db
  effects : List Effect
  result : Except Error α

/-- What one statement of a claim transaction observes, its failure
included. -/
abbrev FaultyEnv := Nat → Env × Option DieselError

/-- `with_claim_conn`: the flag is set between the body and `COMMIT`. -/
def withClaimConn {α : Type} (operation : String) (hasClaims : α → Bool)
    (work : Tx α) (fault : ClaimFault) (env : FaultyEnv) (db : Db) :
    ClaimCall α :=
  let rolledBack (error : Error) : ClaimCall α :=
    ⟨db, [], claimOutcome (.error error) false operation⟩
  let body := work.runBody sql.withFaults env 0 db []
  match fault, body.outcome with
  | .checkout message, _ => rolledBack (.pool message)
  | .begin source, _ => rolledBack (.ofTransaction source)
  | .interrupted message, _ => rolledBack (.blocking message)
  | .rollback source, .error _ => rolledBack (.ofTransaction source)
  | _, .error error => rolledBack error
  | .commit source true, .ok value =>
      ⟨body.view, body.effects, claimOutcome (.error (.ofTransaction source))
        (hasClaims value) operation⟩
  | .commit source false, .ok value =>
      ⟨db, [], claimOutcome (.error (.ofTransaction source)) (hasClaims value)
        operation⟩
  | .executor message, .ok value =>
      ⟨body.view, body.effects, claimOutcome (.error (.blocking message))
        (hasClaims value) operation⟩
  | _, .ok value =>
      ⟨body.view, body.effects, claimOutcome (.ok value) (hasClaims value)
        operation⟩

/-- The changes by which a claim takes a row. -/
def takesClaim (change : JobChange) : Bool :=
  match change.tag with
  | .pollClaim | .notifyClaim | .lock => true
  | _ => false

/-- The rows a call took and left `Queued` or `Running`. -/
def leftClaimed (effects : List Effect) (db : Db) : List String :=
  (((jobChanges effects).filter takesClaim).map RowChange.key).filter fun id =>
    (db.jobs.get? id).any JobRow.active

/-- The tasks are those of the rows a call left claimed, one each. -/
structure DeliversClaims (tasks : List Task) (effects : List Effect)
    (db : Db) : Prop where
  ids : (tasks.map fun task => task.parts.taskId).Perm
    ((leftClaimed effects db).map some)
  claimed : ∀ task ∈ tasks, ∃ row ∈ db.jobs.rows,
    row.active = true ∧ task.Claimed row

/-- A request that goes through the lock statement. -/
structure LockRequest where
  parts : Parts
  record : Option Nat
  taskId : String
  named : parts.taskId = some taskId

/-- The dispatch while it waits for its lock. -/
def LockRequest.waiting (request : LockRequest) : Dispatch :=
  ⟨request.parts, request.record, none, ⟨true, request.record⟩,
    .locking request.taskId none⟩

/-- The claim paths of a worker; `shared` is what its dispatches share when
the answer of the lock arrives. -/
inductive ClaimPath where
  | fetchNext (worker queue : String) (bufferSize : Nat)
      (leaseToken : Option String)
  | queueById (queue : String) (ids : List String) (worker : String)
      (leaseToken : Option String)
  | lockTask (request : LockRequest) (worker : String)
      (leaseToken : Option String) (shared : Shared) (fresh : Nat)

namespace ClaimPath

variable (rows : TaskConversion)

def operation : ClaimPath → String
  | .fetchNext .. => "claiming polled tasks"
  | .queueById .. => "claiming notified tasks"
  | .lockTask .. => "locking task"

def hasClaims : ClaimPath → List Task → Bool
  | .lockTask .., _ => true
  | _, tasks => !tasks.isEmpty

/-- The body of the transaction; the lock returns its one task. -/
def work : ClaimPath → Tx (List Task)
  | .fetchNext worker queue bufferSize leaseToken =>
      ApalisPostgres.fetchNext rows worker queue bufferSize leaseToken
  | .queueById queue ids worker leaseToken =>
      ApalisPostgres.queueById rows queue ids worker leaseToken
  | .lockTask request worker leaseToken _ _ => do
      return [← lockTaskWithToken rows request.taskId worker
        request.parts.ctx.queue leaseToken]

def call (path : ClaimPath) (fault : ClaimFault) (env : FaultyEnv) (db : Db) :
    ClaimCall (List Task) :=
  withClaimConn path.operation path.hasClaims (path.work rows) fault env db

/-- The answer of the lock, as `LockTaskService` tells its errors apart. -/
def lockReply : Except Error (List Task) → LockReply
  | .ok (task :: _) => .locked task.parts.ctx task.parts.attempt
  | .error (.claimOutcomeUnknown _ _) => .unknown
  | _ => .refused

/-- Whether the lease of the worker is retired once the result was consumed:
by its task stream, or by the dispatch that waited for the lock. -/
def leaseRetired : ClaimPath → Except Error (List Task) → Bool
  | .fetchNext worker _ _ _, result
  | .queueById _ _ worker _, result =>
      (LeaseStream.pollNext worker ⟨false, false⟩ (.item result)).1.retired
  | .lockTask request worker _ shared fresh, result =>
      (request.waiting.lockReplied worker shared fresh
        (lockReply result)).1.retired

/-- The record the request came with is acknowledged and nothing else retired
the name. -/
def hidesClaim : ClaimPath → Bool
  | .lockTask request _ _ shared _ =>
      request.record.any shared.isAcknowledged && !shared.retired
  | _ => false

/-- The caller knows what a claim transaction left. -/
structure Classified (path : ClaimPath) (fault : ClaimFault) (env : FaultyEnv)
    (db : Db) : Prop where
  delivered :
    leftClaimed (path.call rows fault env db).effects
        (path.call rows fault env db).db ≠ [] →
      (∃ tasks, (path.call rows fault env db).result = .ok tasks ∧
        DeliversClaims tasks (path.call rows fault env db).effects
          (path.call rows fault env db).db) ∨
      (∃ source, (path.call rows fault env db).result =
          .error (.claimOutcomeUnknown path.operation source) ∧
        path.leaseRetired (path.call rows fault env db).result = true)
  rejected : ∀ error, (path.call rows fault env db).result = .error error →
    (∀ operation source, error ≠ .claimOutcomeUnknown operation source) →
    leftClaimed (path.call rows fault env db).effects
      (path.call rows fault env db).db = []

end ClaimPath

variable {rows : TaskConversion}

/-- A statement fails, or does what it does without faults. -/
theorem ensures_query {α : Type} {operation : String} {stmt : Stmt}
    {next : stmt.Result → Tx α} {post : α → Db → List Effect → Prop}
    {view : Db} {effects : List Effect}
    (hnext : ∀ env result changes, stmt.exec env view = .ok (result, changes) →
      (next result).Ensures sql.withFaults post (fun _ => True)
        (view.apply changes) (effects ++ changes)) :
    (query operation stmt >>= next).Ensures sql.withFaults post
      (fun _ => True) view effects := by
  intro env
  obtain ⟨env, fault⟩ := env
  cases fault with
  | some fault => trivial
  | none =>
      cases hexec : stmt.exec env view with
      | error fault =>
          have hfailed : sql.withFaults.exec stmt (env, none) view =
              .error fault := hexec
          rw [hfailed]
          trivial
      | ok pair =>
          have hran : sql.withFaults.exec stmt (env, none) view = .ok pair :=
            hexec
          rw [hran]
          exact hnext env pair.1 pair.2 hexec

theorem ensures_read {α : Type} {operation : String} {stmt : Stmt}
    {next : stmt.Result → Tx α} {post : α → Db → List Effect → Prop}
    {view : Db} {effects : List Effect} (hread : stmt.readOnly = true)
    (hnext : ∀ result, (next result).Ensures sql.withFaults post
      (fun _ => True) view effects) :
    (query operation stmt >>= next).Ensures sql.withFaults post
      (fun _ => True) view effects := by
  apply ensures_query
  intro env result changes hexec
  have hnil : changes = [] := readOnly_exec hread hexec
  subst hnil
  rw [List.append_nil]
  exact hnext result

theorem requireWorker_ensures {α : Type} {worker queue : String}
    {token : Option String} {next : Unit → Tx α}
    {post : α → Db → List Effect → Prop} {view : Db} {effects : List Effect}
    (hnext : (next ()).Ensures sql.withFaults post (fun _ => True) view
      effects) :
    (requireWorker worker queue token >>= next).Ensures sql.withFaults post
      (fun _ => True) view effects := by
  apply Program.ensures_bind
  apply ensures_read rfl
  intro registration
  cases token with
  | none => exact hnext
  | some presented =>
      cases registration with
      | current => exact hnext
      | absent => trivial
      | replaced => trivial

/-- The conversion of claimed rows: the rows of the returned tasks stay as
they are, every other one is quarantined. -/
structure Converted (claimed : List JobRow) (before : Db)
    (earlier : List Effect) (tasks : List Task) (after : Db)
    (effects : List Effect) : Prop where
  kept : ∃ kept : List JobRow, kept.Sublist claimed ∧
    List.Forall₂ Task.Claimed tasks kept ∧
    (∀ row ∈ kept, after.jobs.get? row.id = some row) ∧
    ∀ row ∈ claimed, row ∉ kept →
      (after.jobs.get? row.id).any JobRow.active = false
  others : ∀ id, id ∉ claimed.map JobRow.id →
    after.jobs.get? id = before.jobs.get? id
  effects : ∃ later, effects = earlier ++ later ∧
    ∀ change ∈ jobChanges later, takesClaim change = false

/-- A quarantine ends the claim of its row and touches no other. -/
theorem quarantine_exec {env : Env} {view : Db} {id : String} {result : Json}
    {count : Nat} {changes : List Effect}
    (h : (Stmt.quarantine id result).exec env view = .ok (count, changes)) :
    ((view.apply changes).jobs.get? id).any JobRow.active = false ∧
      (∀ other, other ≠ id →
        (view.apply changes).jobs.get? other = view.jobs.get? other) ∧
      ∀ change ∈ jobChanges changes, takesClaim change = false := by
  have hexecuted := exec_executed h
  have hkeys : ∀ change ∈ jobChanges changes, change.key = id ∧
      takesClaim change = false ∧ change.after.any JobRow.active = false := by
    intro change hchange
    cases hexecuted.jobStep hchange with
    | quarantine hrow => exact ⟨rfl, rfl, rfl⟩
  refine ⟨?_, ?_, fun change hchange => (hkeys change hchange).2.1⟩
  · rcases hexecuted.job_cases id with
      ⟨change, hmem, _, hafter⟩ | ⟨hnot, hsame⟩
    · rw [hafter]
      exact (hkeys change hmem).2.2
    · rw [hsame]
      cases hget : view.jobs.get? id with
      | none => rfl
      | some row =>
          have hplan := (exec_ok h).1
          simp only [Stmt.plan, Except.ok.injEq, Prod.mk.injEq] at hplan
          have hid : row.id = id := Table.key_of_get? hget
          refine absurd (List.mem_map.mpr ⟨⟨row.id, .quarantine, some row,
            some (quarantineRow env.now result row)⟩, ?_, hid⟩) hnot
          rw [← hplan.2, jobChanges_updateJobs]
          exact mem_updateChanges.mpr ⟨row, List.mem_filter.mpr
            ⟨Table.mem_of_get? hget, decide_eq_true hid⟩, rfl⟩
  · intro other hother
    rcases hexecuted.job_cases other with
      ⟨change, hmem, hkey, _⟩ | ⟨_, hsame⟩
    · exact absurd (hkey.symm.trans (hkeys change hmem).1) hother
    · exact hsame

theorem claimedTasks_ensures {claimed : List JobRow} {view : Db}
    {effects : List Effect}
    (hstored : ∀ row ∈ claimed, view.jobs.get? row.id = some row)
    (hnodup : (claimed.map JobRow.id).Nodup) :
    (claimedTasks rows claimed).Ensures sql.withFaults
      (Converted claimed view effects) (fun _ => True) view effects := by
  induction claimed generalizing view effects with
  | nil =>
      exact ⟨⟨[], .refl _, .nil, by simp, by simp⟩, fun _ _ => rfl, [],
        by simp, by simp [jobChanges]⟩
  | cons row rest ih =>
      rw [List.map_cons, List.nodup_cons] at hnodup
      have hrest : ∀ other ∈ rest, view.jobs.get? other.id = some other :=
        fun other hother => hstored other (List.mem_cons_of_mem _ hother)
      unfold claimedTasks
      cases hconvert : rows.tryIntoTaskCompact row with
      | ok task =>
          apply Program.ensures_bind
          apply (ih hrest hnodup.2).mono _ (fun _ _ => trivial)
          intro tasks after later hconverted
          obtain ⟨kept, hsub, htasks, hstays, hended⟩ := hconverted.kept
          refine ⟨⟨row :: kept, hsub.cons_cons row, ?_, ?_, ?_⟩, ?_,
            hconverted.effects⟩
          · have hok : claimedTaskRow rows row =
                .ok { task with parts := recordClaim task.parts } := by
              simp [claimedTaskRow, taskRow, hconvert]
            exact .cons (claimedTaskRow_ok hok) htasks
          · intro other hother
            rcases List.mem_cons.mp hother with rfl | hother
            · rw [hconverted.others other.id hnodup.1]
              exact hstored other List.mem_cons_self
            · exact hstays other hother
          · intro other hother hnot
            rw [List.mem_cons, not_or] at hnot
            rcases List.mem_cons.mp hother with heq | hother
            · exact absurd heq hnot.1
            · exact hended other hother hnot.2
          · intro id hid
            rw [List.map_cons, List.mem_cons, not_or] at hid
            exact hconverted.others id hid.2
      | error message =>
          apply ensures_query
          intro env count changes hexec
          obtain ⟨hended, hothers, htags⟩ := quarantine_exec hexec
          have hrest' : ∀ other ∈ rest,
              (view.apply changes).jobs.get? other.id = some other := by
            intro other hother
            have hne : other.id ≠ row.id := fun heq =>
              hnodup.1 (heq ▸ List.mem_map_of_mem hother)
            exact (hothers other.id hne).trans (hrest other hother)
          apply (ih hrest' hnodup.2).mono _ (fun _ _ => trivial)
          intro tasks after later hconverted
          obtain ⟨kept, hsub, htasks, hstays, hquarantined⟩ := hconverted.kept
          obtain ⟨more, hlater, hmore⟩ := hconverted.effects
          refine ⟨⟨kept, hsub.cons row, htasks, hstays, ?_⟩, ?_,
            changes ++ more, by simp [hlater], ?_⟩
          · intro other hother hnot
            rcases List.mem_cons.mp hother with rfl | hother
            · rw [hconverted.others other.id hnodup.1]
              exact hended
            · exact hquarantined other hother hnot
          · intro id hid
            rw [List.map_cons, List.mem_cons, not_or] at hid
            rw [hconverted.others id hid.2, hothers id hid.1]
          · intro change hchange
            rw [jobChanges_append, List.mem_append] at hchange
            rcases hchange with hchange | hchange
            · exact htags change hchange
            · exact hmore change hchange

theorem takenBy_updateJobs {edge : JobEdge} {rewrite : JobRow → JobRow}
    {selected : List JobRow}
    (htakes : ∀ row, takesClaim ⟨row.id, edge, some row,
      some (rewrite row)⟩ = true) :
    (((jobChanges (updateJobs edge rewrite selected)).filter
      takesClaim).map RowChange.key) = selected.map JobRow.id := by
  rw [jobChanges_updateJobs, List.filter_eq_self.mpr, updateChanges_keys]
  intro change hchange
  obtain ⟨row, _, rfl⟩ := mem_updateChanges.mp hchange
  exact htakes row

theorem leftClaimed_append {first later : List Effect} {db : Db}
    (hlater : ∀ change ∈ jobChanges later, takesClaim change = false) :
    leftClaimed (first ++ later) db = leftClaimed first db := by
  have hnone : (jobChanges later).filter takesClaim = [] := by
    rw [List.filter_eq_nil_iff]
    intro change hchange
    simp [hlater change hchange]
  simp [leftClaimed, jobChanges_append, hnone]

/-- The tasks of claimed rows name those rows. -/
theorem taskIds_of_claimed {tasks : List Task} {kept : List JobRow}
    (h : List.Forall₂ Task.Claimed tasks kept) :
    (tasks.map fun task => task.parts.taskId) =
        (kept.map JobRow.id).map some ∧
      ∀ task ∈ tasks, ∃ row ∈ kept, task.Claimed row := by
  induction h with
  | nil => simp
  | @cons task row tasks kept hclaimed _ ih =>
      refine ⟨by simp [hclaimed.copies.taskId, ih.1], ?_⟩
      intro other hother
      rcases List.mem_cons.mp hother with rfl | hother
      · exact ⟨row, List.mem_cons_self, hclaimed⟩
      · obtain ⟨found, hfound, hmatch⟩ := ih.2 other hother
        exact ⟨found, List.mem_cons_of_mem _ hfound, hmatch⟩

/-- A batch claim delivers the rows it keeps. -/
theorem Converted.delivers {edge : JobEdge} {worker : String}
    {now : Timestamp} {selected : List JobRow} {view after : Db}
    {tasks : List Task} {effects : List Effect}
    (hsub : selected.Subperm view.jobs.rows)
    (htakes : ∀ row, takesClaim ⟨row.id, edge, some row,
      some (claimRow worker now row)⟩ = true)
    (h : Converted (claimedRows worker now selected)
      (view.apply (updateJobs edge (claimRow worker now) selected))
      (updateJobs edge (claimRow worker now) selected) tasks after effects) :
    DeliversClaims tasks effects after := by
  obtain ⟨kept, hkept, htasks, hstays, hended⟩ := h.kept
  obtain ⟨later, rfl, hlater⟩ := h.effects
  obtain ⟨htaskIds, hclaims⟩ := taskIds_of_claimed htasks
  have hold : ∀ row ∈ kept, row.active = true ∧
      row.id ∈ selected.map JobRow.id := by
    intro row hrow
    obtain ⟨old, hselected, rfl⟩ := List.mem_map.mp
      ((List.mem_insertionSort _).mp (hkept.subset hrow))
    exact ⟨rfl, List.mem_map.mpr ⟨old, hselected, rfl⟩⟩
  have hids : (kept.map JobRow.id).Perm
      (leftClaimed (updateJobs edge (claimRow worker now) selected ++ later)
        after) := by
    rw [leftClaimed_append hlater, leftClaimed, takenBy_updateJobs htakes]
    apply (List.perm_ext_iff_of_nodup ?_ ?_).mpr
    · intro id
      rw [List.mem_filter, List.mem_map]
      constructor
      · rintro ⟨row, hrow, rfl⟩
        exact ⟨(hold row hrow).2, by simp [hstays row hrow, (hold row hrow).1]⟩
      · rintro ⟨hid, hactive⟩
        obtain ⟨old, hselected, rfl⟩ := List.mem_map.mp hid
        refine ⟨claimRow worker now old, ?_, rfl⟩
        by_contra hnot
        have hinactive := hended (claimRow worker now old)
          ((List.mem_insertionSort _).mpr (List.mem_map_of_mem hselected)) hnot
        exact Bool.eq_false_iff.mp hinactive hactive
    · exact (claimedRows_ids_nodup hsub).sublist (hkept.map JobRow.id)
    · exact (view.jobs.keys_nodup_of_subperm hsub).filter _
  refine ⟨?_, ?_⟩
  · rw [htaskIds]
    exact hids.map some
  · intro task htask
    obtain ⟨row, hrow, hclaimed⟩ := hclaims task htask
    exact ⟨row, Table.mem_of_get? (hstays row hrow), (hold row hrow).1,
      hclaimed⟩

theorem claimedRows_stored {env : Env} {view : Db} {stmt : Stmt}
    {edge : JobEdge} {worker : String} {selected : List JobRow}
    (h : Executed env view stmt
      (updateJobs edge (claimRow worker env.now) selected)) :
    ∀ row ∈ claimedRows worker env.now selected,
      (view.apply (updateJobs edge (claimRow worker env.now)
        selected)).jobs.get? row.id = some row := by
  intro row hrow
  obtain ⟨old, hold, rfl⟩ :=
    List.mem_map.mp ((List.mem_insertionSort _).mp hrow)
  have hget := h.get?_updated hold
  exact hget

theorem fetchNext_delivers (worker queue : String) (bufferSize : Nat)
    (token : Option String) (db : Db) :
    (fetchNext rows worker queue bufferSize token).Ensures sql.withFaults
      (fun tasks after effects => DeliversClaims tasks effects after)
      (fun _ => True) db [] := by
  apply requireWorker_ensures
  apply ensures_query
  intro env claimed changes hexec
  have hexecuted := exec_executed hexec
  have hplan := (exec_ok hexec).1
  simp only [Stmt.plan, Except.ok.injEq, Prod.mk.injEq] at hplan
  obtain ⟨rfl, rfl⟩ := hplan
  have hsub := (List.take_sublist (clampI32 (max bufferSize 1))
    (claimSelection env db queue fun _ => true)).subperm.trans
    (claimSelection_subperm env db queue _)
  apply (claimedTasks_ensures (claimedRows_stored hexecuted)
    (claimedRows_ids_nodup hsub)).mono _ (fun _ _ => trivial)
  intro tasks after effects hconverted
  exact hconverted.delivers hsub (fun _ => rfl)

theorem queueById_delivers (queue : String) (ids : List String)
    (worker : String) (token : Option String) (db : Db) :
    (queueById rows queue ids worker token).Ensures sql.withFaults
      (fun tasks after effects => DeliversClaims tasks effects after)
      (fun _ => True) db [] := by
  apply requireWorker_ensures
  apply ensures_query
  intro env claimed changes hexec
  have hexecuted := exec_executed hexec
  have hplan := (exec_ok hexec).1
  simp only [Stmt.plan, Except.ok.injEq, Prod.mk.injEq] at hplan
  obtain ⟨rfl, rfl⟩ := hplan
  have hsub := claimSelection_subperm env db queue
    fun row => ids.contains row.id
  apply (claimedTasks_ensures (claimedRows_stored hexecuted)
    (claimedRows_ids_nodup hsub)).mono _ (fun _ _ => trivial)
  intro tasks after effects hconverted
  exact hconverted.delivers hsub (fun _ => rfl)

/-- An update of one task leaves its one row claimed. -/
theorem locked_leftClaimed {env : Env} {view : Db} {stmt : Stmt}
    {keep : JobRow → Bool} {rewrite : JobRow → JobRow} {old : JobRow}
    (h : Executed env view stmt
      (updateJobs .lock rewrite (view.jobs.rows.filter keep)))
    (hid : ∀ other, keep other = true → other.id = old.id)
    (hactive : (rewrite old).active = true)
    (hold : old ∈ view.jobs.rows.filter keep) :
    [old.id].Perm
      (leftClaimed (updateJobs .lock rewrite (view.jobs.rows.filter keep))
        (view.apply
          (updateJobs .lock rewrite (view.jobs.rows.filter keep)))) := by
  rw [leftClaimed, takenBy_updateJobs (fun _ => rfl)]
  apply (List.perm_ext_iff_of_nodup (List.nodup_singleton _) ?_).mpr
  · intro id
    rw [List.mem_singleton, List.mem_filter, List.mem_map]
    constructor
    · rintro rfl
      exact ⟨⟨old, hold, rfl⟩, by simp [h.get?_updated hold, hactive]⟩
    · rintro ⟨⟨other, hother, rfl⟩, _⟩
      exact hid other (List.mem_filter.mp hother).2
  · exact (view.jobs.keys_nodup_of_subperm
      List.filter_sublist.subperm).filter _

/-- The lock takes the one row it returns. -/
theorem lockedTask_delivers {env : Env} {worker taskId : String}
    {queue : Option String} {view : Db} {locked : List JobRow}
    {changes : List Effect}
    (hexec : (Stmt.lockTask worker taskId queue).exec env view =
      .ok (locked, changes)) :
    (lockedTask rows taskId queue locked).Ensures sql.withFaults
      (fun task after effects => DeliversClaims [task] effects after)
      (fun _ => True) (view.apply changes) changes := by
  have hplan := (exec_ok hexec).1
  simp only [Stmt.plan, Except.ok.injEq, Prod.mk.injEq] at hplan
  cases hlocked : locked with
  | nil => trivial
  | cons row rest =>
      simp only [lockedTask]
      cases hclaimed : claimedTaskRow rows row with
      | error error => trivial
      | ok task =>
          have hrow : row ∈ locked := hlocked ▸ List.mem_cons_self
          have hstored := locked_stored hexec hrow
          have htask := claimedTaskRow_ok hclaimed
          have hexecuted := exec_executed hexec
          obtain ⟨rfl, rfl⟩ := hplan
          obtain ⟨old, hold, rfl⟩ := List.mem_map.mp hrow
          have hkept := (List.mem_filter.mp hold).2
          have hids := locked_leftClaimed hexecuted (by
            intro other hother
            simp only [Bool.and_eq_true, decide_eq_true_eq] at hother hkept
            exact hother.1.1.trans hkept.1.1.symm) rfl hold
          refine ⟨?_, ?_⟩
          · simp only [List.map_cons, List.map_nil, htask.copies.taskId]
            exact hids.map some
          · intro other hother
            cases List.mem_singleton.mp hother
            exact ⟨_, hstored, rfl, htask⟩

theorem lockTaskWithToken_delivers (taskId worker : String)
    (queue token : Option String) (db : Db) :
    (lockTaskWithToken rows taskId worker queue token).Ensures sql.withFaults
      (fun task after effects => DeliversClaims [task] effects after)
      (fun _ => True) db [] := by
  apply ensures_read rfl
  intro located
  have hlock : (query "locking task" (.lockTask worker taskId queue) >>=
      lockedTask rows taskId queue).Ensures sql.withFaults
        (fun task after effects => DeliversClaims [task] effects after)
        (fun _ => True) db [] := by
    apply ensures_query
    intro env locked changes hexec
    exact lockedTask_delivers hexec
  cases located with
  | none => exact hlock
  | some found => exact requireWorker_ensures hlock

variable (rows) in
/-- Where the body of a claim commits, its tasks are the rows it took. -/
theorem ClaimPath.work_delivers (path : ClaimPath) (db : Db) :
    (path.work rows).Ensures sql.withFaults
      (fun tasks after effects => DeliversClaims tasks effects after)
      (fun _ => True) db [] := by
  cases path with
  | fetchNext worker queue bufferSize token =>
      exact fetchNext_delivers worker queue bufferSize token db
  | queueById queue ids worker token =>
      exact queueById_delivers queue ids worker token db
  | lockTask request worker token shared fresh =>
      apply Program.ensures_bind
      exact lockTaskWithToken_delivers request.taskId worker
        request.parts.ctx.queue token db

/-- A claim transaction leaves nothing and fails, or leaves what its body did;
a failure then is reported as unknown if the body claimed anything.  A lost
answer leaves nothing only of a body that failed. -/
theorem withClaimConn_cases {α : Type} (operation : String)
    (hasClaims : α → Bool) (work : Tx α) {fault : ClaimFault}
    (hhonest : fault.Honest) (env : FaultyEnv) (db : Db) :
    ((withClaimConn operation hasClaims work fault env db).effects = [] ∧
      (∃ error, (withClaimConn operation hasClaims work fault env db).result =
        .error error) ∧
      (fault.losesCommit = true → ∀ value,
        (work.runBody sql.withFaults env 0 db []).outcome ≠ .ok value)) ∨
    ∃ value, (work.runBody sql.withFaults env 0 db []).outcome = .ok value ∧
      (withClaimConn operation hasClaims work fault env db).db =
        (work.runBody sql.withFaults env 0 db []).view ∧
      (withClaimConn operation hasClaims work fault env db).effects =
        (work.runBody sql.withFaults env 0 db []).effects ∧
      ((withClaimConn operation hasClaims work fault env db).result =
          .ok value ∧ fault.losesCommit = false ∨
        fault.losesCommit = true ∧ ∃ source,
          (withClaimConn operation hasClaims work fault env db).result =
            .error (if hasClaims value then
              .claimOutcomeUnknown operation source else source)) := by
  have hrejected : ∀ error, ∃ rejected,
      (claimOutcome (.error error) false operation : Except Error α) =
        .error rejected := fun error => ⟨error, by simp [claimOutcome]⟩
  unfold withClaimConn
  rcases work.runBody sql.withFaults env 0 db [] with ⟨view, effects, outcome⟩
  cases outcome with
  | error error =>
      left
      cases fault <;> exact ⟨rfl, hrejected _, fun _ _ hok => by cases hok⟩
  | ok value =>
      cases fault with
      | checkout message =>
          exact Or.inl ⟨rfl, hrejected _, fun hlost => by cases hlost⟩
      | begin source =>
          exact Or.inl ⟨rfl, hrejected _, fun hlost => by cases hlost⟩
      | interrupted message =>
          exact Or.inl ⟨rfl, hrejected _, fun hlost => by cases hlost⟩
      | none => exact Or.inr ⟨value, rfl, rfl, rfl, Or.inl ⟨rfl, rfl⟩⟩
      | rollback source =>
          exact Or.inr ⟨value, rfl, rfl, rfl, Or.inl ⟨rfl, rfl⟩⟩
      | executor message =>
          refine Or.inr ⟨value, rfl, rfl, rfl,
            Or.inr ⟨rfl, .blocking message, ?_⟩⟩
          cases hclaims : hasClaims value <;>
            simp [claimOutcome, knownCommitRejection, hclaims]
      | commit source applied =>
          cases applied with
          | false =>
              refine Or.inl ⟨rfl, ?_, fun hlost => by cases hlost⟩
              simp only [claimOutcome]
              split
              · exact ⟨_, rfl⟩
              · exact ⟨_, rfl⟩
          | true =>
              have hunknown : knownCommitRejection (.ofTransaction source) =
                  false := by
                rw [Bool.eq_false_iff]
                intro hknown
                exact absurd (hhonest hknown) (by simp)
              refine Or.inr ⟨value, rfl, rfl, rfl,
                Or.inr ⟨rfl, .ofTransaction source, ?_⟩⟩
              cases hclaims : hasClaims value <;>
                simp [claimOutcome, hunknown, hclaims]

namespace ClaimPath

/-- An unknown outcome retires the lease, unless the obligation of the lock
speaks for an acknowledged record. -/
theorem leaseRetired_unknown (path : ClaimPath) (operation : String)
    (source : Error) :
    path.leaseRetired (.error (.claimOutcomeUnknown operation source)) =
      !path.hidesClaim := by
  cases path with
  | fetchNext worker queue bufferSize token => rfl
  | queueById queue ids worker token => rfl
  | lockTask request worker token shared fresh =>
      simp only [leaseRetired, lockReply, Dispatch.lockReplied,
        Dispatch.finish, LockRequest.waiting, ClaimObligation.drop, hidesClaim]
      by_cases hacked : request.record.any shared.isAcknowledged = true
      · simp [hacked, ClaimObligation.disarm]
      · simp [hacked, Shared.retire]

theorem eq_nil_of_hasClaims {path : ClaimPath} {tasks : List Task}
    (h : path.hasClaims tasks = false) : tasks = [] := by
  cases path with
  | lockTask request worker token shared fresh => cases h
  | fetchNext worker queue bufferSize token => simpa [hasClaims] using h
  | queueById queue ids worker token => simpa [hasClaims] using h

/-- Where no record hides the claim, or no applied commit loses its answer,
the caller knows what the transaction left. -/
theorem classified_of_known {path : ClaimPath} {fault : ClaimFault}
    (hknown : path.hidesClaim = false ∨ fault.losesCommit = false)
    (hhonest : fault.Honest) (env : FaultyEnv) (db : Db) :
    path.Classified rows fault env db := by
  rcases withClaimConn_cases path.operation path.hasClaims (path.work rows)
      hhonest env db with
    ⟨hnone, _⟩ | ⟨tasks, houtcome, hdb, heffects, hresult⟩
  · have hleft : leftClaimed (path.call rows fault env db).effects
        (path.call rows fault env db).db = [] := by
      rw [call, hnone]
      rfl
    exact ⟨fun hne => absurd hleft hne, fun _ _ _ => hleft⟩
  · have hdelivers := (work_delivers rows path db).runBody env 0
    rcases hbody : (path.work rows).runBody sql.withFaults env 0 db [] with
      ⟨view, effects, outcome⟩
    rw [hbody] at houtcome hdb heffects hdelivers
    dsimp only at houtcome hdb heffects
    subst houtcome
    dsimp only at hdelivers
    have hclaims : DeliversClaims tasks (path.call rows fault env db).effects
        (path.call rows fault env db).db := by
      rw [call, hdb, heffects]
      exact hdelivers
    rcases hresult with ⟨hok, _⟩ | ⟨hlost, source, hfailed⟩
    · refine ⟨fun _ => Or.inl ⟨tasks, hok, hclaims⟩, ?_⟩
      intro error herror
      cases hok.symm.trans herror
    · have hvisible : path.hidesClaim = false :=
        hknown.resolve_right (by simp [hlost])
      cases hany : path.hasClaims tasks with
      | true =>
          rw [hany, if_pos rfl] at hfailed
          refine ⟨fun _ => Or.inr ⟨source, hfailed, ?_⟩, ?_⟩
          · rw [call, hfailed, leaseRetired_unknown, hvisible]
            rfl
          · intro error herror hother
            cases hfailed.symm.trans herror
            exact absurd rfl (hother _ _)
      | false =>
          have hleft : leftClaimed (path.call rows fault env db).effects
              (path.call rows fault env db).db = [] := by
            have hids := hclaims.ids
            rw [eq_nil_of_hasClaims hany, List.map_nil] at hids
            exact List.map_eq_nil_iff.mp hids.symm.eq_nil
          exact ⟨fun hne => absurd hleft hne, fun _ _ _ => hleft⟩

/-- A body that fails leaves nothing claimed. -/
theorem classified_of_failed {path : ClaimPath} {fault : ClaimFault}
    (hhonest : fault.Honest) {env : FaultyEnv} {db : Db}
    (hfails : ∀ tasks, ((path.work rows).runBody sql.withFaults env 0 db
      []).outcome ≠ .ok tasks) : path.Classified rows fault env db := by
  rcases withClaimConn_cases path.operation path.hasClaims (path.work rows)
      hhonest env db with ⟨hnone, _⟩ | ⟨tasks, houtcome, _⟩
  · have hleft : leftClaimed (path.call rows fault env db).effects
        (path.call rows fault env db).db = [] := by
      rw [call, hnone]
      rfl
    exact ⟨fun hne => absurd hleft hne, fun _ _ _ => hleft⟩
  · exact absurd houtcome (hfails tasks)

end ClaimPath

/-- The row a lock statement takes. -/
def lockTarget (worker taskId : String) (scope : Option String)
    (now : Timestamp) (db : Db) : Option JobRow :=
  (db.jobs.get? taskId).filter fun row =>
    (scope.isNone || scope = some row.jobType) && lockable worker now row

/-- The lock of the request goes through: every statement is served, the row
is there to be locked under a current registration, the schema takes the
locked row, and it converts. -/
def LockRequest.lands (rows : TaskConversion) (request : LockRequest)
    (worker : String) (token : Option String) (env : FaultyEnv) (db : Db) :
    Bool :=
  let now := (env 2).1.now
  (env 0).2.isNone && (env 1).2.isNone && (env 2).2.isNone &&
    (lockTarget worker request.taskId request.parts.ctx.queue now db).any
      fun row =>
        (token.isNone || (db.workers.get? (worker, row.jobType)).any
          (tokenAccepted token)) &&
        (rowViolation (lockRow worker now row)).isNone &&
        ownerRegistered db (lockRow worker now row) &&
        (claimedTaskRow rows (lockRow worker now row)).isOk

/-- The body gets to its commit. -/
def Commits {α : Type} (body : Tx α) (env : FaultyEnv) (n : Nat) (view : Db)
    (effects : List Effect) : Prop :=
  ∃ value, (body.runBody sql.withFaults env n view effects).outcome = .ok value

section

variable {env : FaultyEnv} {n : Nat} {view : Db} {effects : List Effect}

theorem commits_query {α : Type} {operation : String} {stmt : Stmt}
    {next : stmt.Result → Tx α} :
    Commits (query operation stmt >>= next) env n view effects ↔
      (env n).2 = none ∧ ∃ result changes,
        stmt.exec (env n).1 view = .ok (result, changes) ∧
          Commits (next result) env (n + 1) (view.apply changes)
            (effects ++ changes) := by
  cases hfault : (env n).2 with
  | some fault =>
      have hexec : sql.withFaults.exec stmt (env n) view = .error fault := by
        simp [StatementModel.withFaults, hfault]
      simp [Commits, Program.runBody, hexec]
  | none =>
      have hexec : sql.withFaults.exec stmt (env n) view =
          stmt.exec (env n).1 view := by
        simp only [StatementModel.withFaults, hfault]
        rfl
      cases hran : stmt.exec (env n).1 view with
      | error fault => simp [Commits, Program.runBody, hexec, hran]
      | ok pair =>
          simp only [Commits, query_bind, Program.runBody, hexec, hran,
            true_and, Except.ok.injEq]
          constructor
          · intro h
            exact ⟨pair.1, pair.2, rfl, h⟩
          · rintro ⟨result, changes, rfl, h⟩
            exact h

theorem commits_rollback {α : Type} (error : Error) :
    ¬ Commits (.rollback error : Tx α) env n view effects := by
  rintro ⟨value, h⟩
  cases h

theorem commits_requireWorker {α : Type} {worker queue : String}
    {token : Option String} {next : Unit → Tx α} :
    Commits (requireWorker worker queue token >>= next) env n view effects ↔
      (env n).2 = none ∧
        (token.isNone || (view.workers.get? (worker, queue)).any
          (tokenAccepted token)) = true ∧
        Commits (next ()) env (n + 1) view effects := by
  unfold requireWorker
  rw [query_bind, Program.statement_bind, ← query_bind, commits_query]
  refine and_congr Iff.rfl ?_
  constructor
  · rintro ⟨registration, changes, hexec, hnext⟩
    obtain ⟨hregistration, rfl⟩ := Prod.mk.inj (Except.ok.inj hexec)
    rw [List.append_nil] at hnext
    cases token with
    | none => exact ⟨rfl, hnext⟩
    | some presented =>
        cases registration with
        | current =>
            refine ⟨?_, hnext⟩
            cases hget : view.workers.get? (worker, queue) with
            | none => simp [hget] at hregistration
            | some row =>
                by_cases haccepted : tokenAccepted (some presented) row = true
                · simp [haccepted]
                · simp [hget, haccepted] at hregistration
        | absent => exact absurd hnext (commits_rollback _)
        | replaced => exact absurd hnext (commits_rollback _)
  · rintro ⟨hheld, hnext⟩
    refine ⟨_, [], rfl, ?_⟩
    rw [List.append_nil]
    cases token with
    | none => exact hnext
    | some presented =>
        cases hget : view.workers.get? (worker, queue) with
        | none => simp [hget] at hheld
        | some row =>
            have haccepted : tokenAccepted (some presented) row = true := by
              simpa [hget] using hheld
            simp only [haccepted, if_true]
            exact hnext

/-- A lock statement takes its target or nothing. -/
theorem plan_lockTask (env : Env) (worker taskId : String)
    (scope : Option String) (db : Db) :
    (Stmt.lockTask worker taskId scope).plan env db = .ok
      ((lockTarget worker taskId scope env.now db).toList.map
          (lockRow worker env.now),
        updateJobs .lock (lockRow worker env.now)
          (lockTarget worker taskId scope env.now db).toList) := by
  have hselected : (db.jobs.rows.filter fun row =>
      row.id = taskId && (scope.isNone || scope = some row.jobType) &&
        lockable worker env.now row) =
      (lockTarget worker taskId scope env.now db).toList := by
    simp only [Bool.and_assoc]
    exact db.jobs.filter_key taskId _
  simp only [Stmt.plan, hselected]

/-- The lock commits if it has a target that the schema takes once locked and
that converts. -/
theorem commits_lock {worker taskId : String} {scope : Option String} :
    Commits (query "locking task" (.lockTask worker taskId scope) >>=
        lockedTask rows taskId scope) env n view effects ↔
      (env n).2 = none ∧
        (lockTarget worker taskId scope (env n).1.now view).any (fun row =>
          (rowViolation (lockRow worker (env n).1.now row)).isNone &&
          ownerRegistered view (lockRow worker (env n).1.now row) &&
          (claimedTaskRow rows (lockRow worker (env n).1.now row)).isOk) =
            true := by
  rw [commits_query]
  refine and_congr Iff.rfl ?_
  have hplan := plan_lockTask (env n).1 worker taskId scope view
  cases htarget : lockTarget worker taskId scope (env n).1.now view with
  | none =>
      rw [htarget] at hplan
      constructor
      · rintro ⟨locked, changes, hexec, hnext⟩
        have hran := (exec_ok hexec).1
        rw [hplan] at hran
        obtain ⟨rfl, rfl⟩ := Prod.mk.inj (Except.ok.inj hran)
        exact absurd hnext (commits_rollback _)
      · intro h
        cases h
  | some row =>
      rw [htarget] at hplan
      generalize hlocked : lockRow worker (env n).1.now row = locked
      let changes := updateJobs .lock (lockRow worker (env n).1.now) [row]
      have hchanges : changes =
          [.job ⟨row.id, .lock, some row, some locked⟩] := by
        simp [changes, updateJobs, updateChanges, hlocked]
      have hworkers : (view.apply changes).workers = view.workers := by
        rw [Db.apply_workers, workerChanges_updateJobs]
        rfl
      have howner : ownerRegistered (view.apply changes) locked =
          ownerRegistered view locked := by
        simp only [ownerRegistered, hworkers]
      have haccepted : effectViolation (view.apply changes)
          (.job ⟨row.id, .lock, some row, some locked⟩) = none ↔
          (rowViolation locked).isNone = true ∧
            ownerRegistered view locked = true := by
        simp only [effectViolation, howner]
        cases rowViolation locked <;> simp
      simp only [Option.toList_some, List.map_cons, List.map_nil,
        hlocked] at hplan
      simp only [Option.any_some, Bool.and_eq_true, hlocked]
      constructor
      · rintro ⟨found, written, hexec, hnext⟩
        obtain ⟨hran, hviolates⟩ := exec_ok hexec
        rw [hplan] at hran
        obtain ⟨rfl, rfl⟩ := Prod.mk.inj (Except.ok.inj hran)
        have hmem : (.job ⟨row.id, .lock, some row, some locked⟩ : Effect) ∈
            changes := hchanges ▸ List.mem_singleton_self _
        refine ⟨haccepted.mp (hviolates _ hmem), ?_⟩
        simp only [lockedTask] at hnext
        cases hclaimed : claimedTaskRow rows locked with
        | ok task => rfl
        | error error =>
            rw [hclaimed] at hnext
            exact absurd hnext (commits_rollback _)
      · rintro ⟨hfits, hconverts⟩
        have hexec : (Stmt.lockTask worker taskId scope).exec (env n).1 view =
            .ok ([locked], changes) := by
          have hnone : changes.findSome?
              (effectViolation (view.apply changes)) = none := by
            rw [hchanges, List.findSome?_singleton, ← hchanges]
            exact haccepted.mpr hfits
          simp only [Stmt.exec, hplan, bind, Except.bind]
          rw [hnone]
          rfl
        refine ⟨[locked], changes, hexec, ?_⟩
        simp only [lockedTask]
        cases hclaimed : claimedTaskRow rows locked with
        | ok task => exact ⟨task, rfl⟩
        | error error =>
            rw [hclaimed] at hconverts
            cases hconverts

/-- The lock of a request goes through exactly if it lands. -/
theorem LockRequest.lands_iff (request : LockRequest) (worker : String)
    (token : Option String) (env : FaultyEnv) (db : Db) :
    Commits (lockTaskWithToken rows request.taskId worker
        request.parts.ctx.queue token) env 0 db [] ↔
      request.lands rows worker token env db = true := by
  have hsame : db.apply [] = db := rfl
  have hscope : ∀ now, lockTarget worker request.taskId request.parts.ctx.queue
      now db = ((db.jobs.get? request.taskId).filter fun row =>
        request.parts.ctx.queue.isNone ||
          request.parts.ctx.queue = some row.jobType).filter
            (lockable worker now) := by
    intro now
    rw [lockTarget, Option.filter_filter]
  have hlocated : ∀ now, (Stmt.taskQueue request.taskId
      request.parts.ctx.queue).exec now db = .ok
      (((db.jobs.get? request.taskId).filter fun row =>
        request.parts.ctx.queue.isNone ||
          request.parts.ctx.queue = some row.jobType).map JobRow.jobType,
        []) := fun _ => rfl
  simp only [LockRequest.lands, hscope]
  generalize ((db.jobs.get? request.taskId).filter fun row =>
    request.parts.ctx.queue.isNone ||
      request.parts.ctx.queue = some row.jobType) = located at *
  have hbody : Commits (lockTaskWithToken rows request.taskId worker
        request.parts.ctx.queue token) env 0 db [] ↔
      (env 0).2 = none ∧ Commits (requireLocatedWorker worker token
        (located.map JobRow.jobType) >>= fun _ =>
          query "locking task" (.lockTask worker request.taskId
            request.parts.ctx.queue) >>=
          lockedTask rows request.taskId request.parts.ctx.queue) env 1 db
        [] := by
    unfold lockTaskWithToken
    rw [commits_query]
    refine and_congr Iff.rfl ?_
    constructor
    · rintro ⟨queue, changes, hexec, hnext⟩
      rw [hlocated] at hexec
      obtain ⟨rfl, rfl⟩ := Prod.mk.inj (Except.ok.inj hexec)
      exact hnext
    · intro hnext
      exact ⟨_, [], hlocated _, hnext⟩
  rw [hbody]
  cases located with
  | none =>
      rw [show requireLocatedWorker worker token
        ((none : Option JobRow).map JobRow.jobType) = pure () from rfl,
        Program.pure_eq, Program.commit_bind, commits_lock, hscope]
      simp
  | some row =>
      rw [show requireLocatedWorker worker token ((some row).map
        JobRow.jobType) = requireWorker worker row.jobType token from rfl,
        commits_requireWorker, commits_lock, hscope]
      cases hlockable : lockable worker (env 2).1.now row with
      | false => simp [Option.filter, hlockable]
      | true =>
          simp only [Option.filter, hlockable, if_true, Option.any_some,
            Bool.and_eq_true, Option.isNone_iff_eq_none]
          tauto

end

namespace ClaimPath

/-- The path is a lock that goes through. -/
def lockLands (rows : TaskConversion) :
    ClaimPath → FaultyEnv → Db → Bool
  | .lockTask request worker token _ _, env, db =>
      request.lands rows worker token env db
  | _, _, _ => false

/-- A claim that was made and not delivered, with the lease left as it was. -/
theorem not_classified_of_unknown {path : ClaimPath} {fault : ClaimFault}
    {env : FaultyEnv} {db : Db} {source : Error} (tasks : List Task)
    (hhidden : path.hidesClaim = true)
    (hresult : (path.call rows fault env db).result =
      .error (.claimOutcomeUnknown path.operation source))
    (hdelivers : DeliversClaims tasks (path.call rows fault env db).effects
      (path.call rows fault env db).db)
    (htasks : tasks ≠ []) : ¬ path.Classified rows fault env db := by
  intro hclassified
  have hleft : leftClaimed (path.call rows fault env db).effects
      (path.call rows fault env db).db ≠ [] := by
    intro hnil
    have hids := hdelivers.ids
    rw [hnil, List.map_nil] at hids
    exact htasks (List.map_eq_nil_iff.mp hids.eq_nil)
  rcases hclassified.delivered hleft with
    ⟨delivered, hok, _⟩ | ⟨other, _, hretired⟩
  · cases hresult.symm.trans hok
  · rw [hresult, leaseRetired_unknown, hhidden] at hretired
    cases hretired

/-- A lock behind an acknowledged record that lands: its commit is applied,
its answer is lost, and the lease stays. -/
theorem not_classified_of_hidden {path : ClaimPath} {fault : ClaimFault}
    (hhonest : fault.Honest) {env : FaultyEnv} {db : Db}
    (hhidden : path.hidesClaim = true) (hlost : fault.losesCommit = true)
    (hlands : path.lockLands rows env db = true) :
    ¬ path.Classified rows fault env db := by
  cases path with
  | fetchNext worker queue bufferSize token => cases hlands
  | queueById queue ids worker token => cases hlands
  | lockTask request worker token shared fresh =>
      obtain ⟨task, hlocked⟩ :=
        (request.lands_iff worker token env db).mpr hlands
      have hbody := Program.runBody_map (M := sql.withFaults) env
        (fun task => [task]) 0 (lockTaskWithToken rows request.taskId
          worker request.parts.ctx.queue token) db []
      rw [hlocked] at hbody
      have houtcome : (((lockTask request worker token shared fresh).work
          rows).runBody sql.withFaults env 0 db []).outcome = .ok [task] :=
        congrArg BodyEnd.outcome hbody
      have hdelivers := (work_delivers rows (.lockTask request worker token
        shared fresh) db).runBody env 0
      rcases withClaimConn_cases
          (lockTask request worker token shared fresh).operation
          (lockTask request worker token shared fresh).hasClaims
          ((lockTask request worker token shared fresh).work rows)
          hhonest env db with
        ⟨_, _, hfailed⟩ | ⟨tasks, htasks, hdb, heffects, hresult⟩
      · exact absurd houtcome (hfailed hlost _)
      · rw [houtcome] at htasks
        obtain rfl := Except.ok.inj htasks
        rcases hresult with ⟨_, hkept⟩ | ⟨_, source, hunknown⟩
        · rw [hlost] at hkept
          cases hkept
        · refine not_classified_of_unknown [task] hhidden hunknown ?_ (by simp)
          rcases hran : ((lockTask request worker token shared fresh).work
            rows).runBody sql.withFaults env 0 db [] with ⟨view, effects, outcome⟩
          rw [hran] at houtcome hdb heffects hdelivers
          dsimp only at houtcome hdb heffects
          subst houtcome
          rw [call, hdb, heffects]
          exact hdelivers

/-- A call is classified exactly if no acknowledged record hides its claim, or
no applied commit loses its answer, or its lock does not go through. -/
theorem claims_classified_iff (path : ClaimPath) {fault : ClaimFault}
    (hhonest : fault.Honest) (env : FaultyEnv) (db : Db) :
    path.Classified rows fault env db ↔
      path.hidesClaim = false ∨ fault.losesCommit = false ∨
        path.lockLands rows env db = false := by
  constructor
  · intro hclassified
    by_contra hnone
    simp only [not_or, Bool.not_eq_false] at hnone
    exact not_classified_of_hidden hhonest hnone.1 hnone.2.1 hnone.2.2
      hclassified
  · rintro (hvisible | hkept | hmissed)
    · exact classified_of_known (Or.inl hvisible) hhonest env db
    · exact classified_of_known (Or.inr hkept) hhonest env db
    · cases path with
      | fetchNext worker queue bufferSize token =>
          exact classified_of_known (Or.inl rfl) hhonest env db
      | queueById queue ids worker token =>
          exact classified_of_known (Or.inl rfl) hhonest env db
      | lockTask request worker token shared fresh =>
          apply classified_of_failed hhonest
          intro tasks htasks
          have hbody := Program.runBody_map (M := sql.withFaults) env
            (fun task => [task]) 0 (lockTaskWithToken rows request.taskId
              worker request.parts.ctx.queue token) db []
          have hcommits : Commits (lockTaskWithToken rows request.taskId worker
              request.parts.ctx.queue token) env 0 db [] := by
            cases hrun : ((lockTaskWithToken rows request.taskId worker
              request.parts.ctx.queue token).runBody sql.withFaults env 0 db
                []).outcome with
            | ok task => exact ⟨task, hrun⟩
            | error error =>
                rw [hrun] at hbody
                have hsame := congrArg BodyEnd.outcome hbody
                cases hsame.symm.trans htasks
          have hlands := (request.lands_iff worker token env db).mp hcommits
          cases hmissed.symm.trans hlands

/-- A task that "v" ran and acknowledged as a retryable failure. -/
def redispatched : LockRequest :=
  ⟨⟨some sampleId, ⟨5, some 10, some "v", some "queue"⟩, 1,
      some ⟨some sampleId, some 10, 0⟩⟩, some 0, sampleId, rfl⟩

/-- The lock of that task by "worker", which registered since; the record the
task came with is acknowledged. -/
def lockAgain : ClaimPath :=
  .lockTask redispatched "worker" (some "token")
    ⟨false, fun _ => some ⟨"v", ⟨sampleId, 10, 0⟩, true, true, true⟩⟩ 1

/-- The task is due again and the worker registered. -/
def retryDb : Db :=
  ([(⟨.registerWorker "worker" "queue" storageName "" "token" 30,
      quietEnv⟩ : Invocation),
    ⟨.pushTasksOnConn "queue" [sampleTask], quietEnv⟩].foldl
      (System.step TaskConversion.copying) .initial).db

/-- Nothing else happens, and no statement fails. -/
def quietFaultyEnv : FaultyEnv := fun n => (quietEnv n, none)

/-- A `COMMIT` that the server rejected left nothing behind. -/
theorem claims_classified_iff_rejected :
    lockAgain.Classified TaskConversion.copying
      (.commit (.databaseError .serializationFailure "conflict") false)
      quietFaultyEnv retryDb := by
  have hhonest : ClaimFault.Honest
      (.commit (.databaseError .serializationFailure "conflict") false) :=
    fun _ => rfl
  exact (claims_classified_iff lockAgain hhonest quietFaultyEnv retryDb).mpr
    (Or.inr (Or.inl rfl))

/-- The lock commits and its answer is lost: the worker stays live with a row
nobody runs. -/
theorem claim_hidden_behind_record :
    ¬ lockAgain.Classified TaskConversion.copying (.executor "panicked")
      quietFaultyEnv retryDb := by
  have hhonest : ClaimFault.Honest (.executor "panicked") := trivial
  exact not_classified_of_hidden hhonest rfl rfl (by decide +kernel)

end ClaimPath

end ApalisPostgres
