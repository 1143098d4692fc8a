/-
Purging terminal tasks.  Batches are deleted until one is short, against a
table other transactions keep writing.  The cutoff is sampled once, so what
becomes terminal meanwhile is never old enough, and every full batch leaves
fewer rows to purge.
-/
import ApalisPostgres.TaskResults

namespace ApalisPostgres

open RowStore

/-- The physical order in which a statement meets the rows of a table. -/
structure ScanOrder where
  scan : Db → Db
  jobs : ∀ db, (scan db).jobs.rows.Perm db.jobs.rows
  workers : ∀ db, (scan db).workers = db.workers

/-- One turn of the purge: the transactions that ran since the last batch, the
order of the scan, and what the batch's connection observes. -/
structure PurgeTurn where
  meanwhile : List Invocation
  order : ScanOrder
  conn : Except Error Env

/-- How a purge ended, with the rows its statements deleted. -/
structure PurgeEnd where
  result : Except Error Nat
  deleted : List JobRow
  db : Db

/-- The rows a transaction deleted. -/
def deletedRows (effects : List Effect) : List JobRow :=
  (jobChanges effects).filterMap fun change =>
    if change.after.isNone then change.before else none

section

variable (rows : TaskConversion)

/-- The database after the transactions of others. -/
def runMeanwhile (db : Db) (invocations : List Invocation) : Db :=
  invocations.foldl (fun db invocation =>
    ((program rows invocation.op).execute sql invocation.env db).view) db

/-- The database a batch finds. -/
def PurgeTurn.arrive (turn : PurgeTurn) (db : Db) : Db :=
  turn.order.scan (runMeanwhile rows db turn.meanwhile)

/-- The loop of `purge_terminal_tasks_batched`, `none` while it goes on. -/
def purgeLoop (queue : String) (cutoff : Timestamp) (limit : Nat)
    (turns : Nat → PurgeTurn) :
    Nat → Nat → Nat → List JobRow → Db → Option PurgeEnd
  | 0, _, _, _, _ => none
  | fuel + 1, n, total, deleted, db =>
      let view := (turns n).arrive rows db
      match (turns n).conn with
      | .error error => some ⟨.error error, deleted, view⟩
      | .ok env =>
          let stop := (purgeTerminalBatch queue cutoff limit).execute sql
            (fun _ => env) view
          match stop.outcome with
          | .error error => some ⟨.error error, deleted, stop.view⟩
          | .ok count =>
              if count < limit then
                some ⟨.ok (total + count), deleted ++ deletedRows stop.effects,
                  stop.view⟩
              else
                purgeLoop queue cutoff limit turns fuel (n + 1) (total + count)
                  (deleted ++ deletedRows stop.effects) stop.view

/-- `sample` is what `server_cutoff` returned. -/
def purgeTerminalTasksBatched (sample : Except Error Timestamp)
    (queue : String) (limit : Int) (turns : Nat → PurgeTurn) (fuel : Nat)
    (db : Db) : Option PurgeEnd :=
  match sample with
  | .error error => some ⟨.error error, [], db⟩
  | .ok cutoff =>
      purgeLoop rows queue cutoff (max limit 1).toNat turns fuel 0 0 [] db

end

/-- The rows the purge statement selects from. -/
def purgeable (queue : String) (cutoff : Timestamp) (row : JobRow) : Bool :=
  row.jobType = queue && terminal row && completedBefore cutoff row

def purgeableRows (queue : String) (cutoff : Timestamp) (db : Db) :
    List JobRow :=
  db.jobs.rows.filter (purgeable queue cutoff)

section

variable {queue : String} {cutoff : Timestamp}

theorem mem_purgeableRows {db : Db} {row : JobRow} :
    row ∈ purgeableRows queue cutoff db ↔
      row ∈ db.jobs.rows ∧ purgeable queue cutoff row = true :=
  List.mem_filter

theorem purgeableRows_nodup (db : Db) :
    (purgeableRows queue cutoff db).Nodup :=
  (List.Nodup.of_map _ db.jobs.keyed).filter _

theorem purgeSelection_sublist (env : Env) (db : Db) (limit : Nat) :
    (purgeSelection env db queue cutoff limit).Sublist
      (purgeableRows queue cutoff db) := by
  refine (List.take_sublist _ _).trans ?_
  rw [purgeableRows]
  refine List.monotone_filter_right _ ?_
  intro row hrow
  simp only [Bool.and_eq_true] at hrow
  simp only [purgeable, Bool.and_eq_true]
  exact hrow.1

theorem purgeSelection_unlocked {env : Env} (db : Db) (limit : Nat)
    (hfree : ∀ id, env.jobLocked id = false) :
    purgeSelection env db queue cutoff limit =
      (purgeableRows queue cutoff db).take limit := by
  simp only [purgeSelection, hfree, Bool.not_false, Bool.and_true]
  rfl

theorem deletedRows_deleteJobs (selected : List JobRow) :
    deletedRows (deleteJobs selected) = selected := by
  rw [deletedRows, deleteJobs_eq, jobChanges_map_job]
  simp [List.filterMap_map]

/-- A deletion violates nothing. -/
theorem exec_purgeTerminal (queue : String) (cutoff : Timestamp) (env : Env)
    (db : Db) (limit : Nat) :
    sql.exec (.purgeTerminal queue cutoff limit) env db =
      .ok ((purgeSelection env db queue cutoff limit).length,
        deleteJobs (purgeSelection env db queue cutoff limit)) := by
  have hnone : (deleteJobs (purgeSelection env db queue cutoff
      limit)).findSome? (effectViolation (db.apply (deleteJobs
        (purgeSelection env db queue cutoff limit)))) = none := by
    rw [List.findSome?_eq_none_iff]
    intro effect heffect
    obtain ⟨row, _, rfl⟩ := List.mem_map.mp heffect
    rfl
  change Stmt.exec _ _ _ = _
  simp [Stmt.exec, Stmt.plan, bind, Except.bind, pure, Except.pure, hnone]

theorem execute_purgeTerminalBatch (queue : String) (cutoff : Timestamp)
    (env : Env) (db : Db) (limit : Nat) :
    (purgeTerminalBatch queue cutoff limit).execute sql (fun _ => env) db =
      ⟨db.apply (deleteJobs (purgeSelection env db queue cutoff limit)),
        deleteJobs (purgeSelection env db queue cutoff limit),
        .ok (purgeSelection env db queue cutoff limit).length⟩ := by
  have hexec := exec_purgeTerminal queue cutoff env db limit
  simp only [purgeTerminalBatch, query, Program.execute, Program.call,
    Program.runBody, hexec, List.nil_append]
  rfl

/-- A batch deletes what it selected and nothing else. -/
theorem mem_apply_deleteJobs {env : Env} {db : Db} {limit : Nat}
    {row : JobRow} :
    row ∈ (db.apply (deleteJobs (purgeSelection env db queue cutoff
        limit))).jobs.rows ↔
      row ∈ db.jobs.rows ∧
        row ∉ purgeSelection env db queue cutoff limit := by
  have hexecuted := exec_executed (exec_purgeTerminal queue cutoff env db
    limit)
  have hchanges : ∀ change, change ∈ jobChanges (deleteJobs (purgeSelection
      env db queue cutoff limit)) ↔ ∃ old ∈ purgeSelection env db queue cutoff
        limit, change = ⟨old.id, .purge, some old, none⟩ := by
    intro change
    rw [deleteJobs_eq, jobChanges_map_job, List.mem_map]
    exact ⟨fun ⟨old, hold, heq⟩ => ⟨old, hold, heq.symm⟩,
      fun ⟨old, hold, heq⟩ => ⟨old, hold, heq.symm⟩⟩
  constructor
  · intro hrow
    rcases hexecuted.row_cases hrow with ⟨change, hmem, hafter⟩ | ⟨hold, hnot⟩
    · obtain ⟨old, _, rfl⟩ := (hchanges change).mp hmem
      cases hafter
    · refine ⟨hold, fun hselected => hnot ?_⟩
      exact List.mem_map.mpr ⟨_, (hchanges _).mpr ⟨row, hselected, rfl⟩, rfl⟩
  · rintro ⟨hrow, hkept⟩
    rcases hexecuted.job_cases row.id with
      ⟨change, hmem, hkey, _⟩ | ⟨_, hsame⟩
    · obtain ⟨old, hold, rfl⟩ := (hchanges change).mp hmem
      have hstored := (mem_purgeSelection hold).1
      exact absurd (Db.row_unique hstored hrow hkey ▸ hold) hkept
    · exact Table.mem_of_get? (hsame.trans (Table.get?_of_mem hrow))

/-- What a batch leaves to purge. -/
theorem purgeableRows_deleteJobs (env : Env) (db : Db) (limit : Nat) :
    (purgeableRows queue cutoff db).Perm
      (purgeSelection env db queue cutoff limit ++
        purgeableRows queue cutoff (db.apply (deleteJobs (purgeSelection env
          db queue cutoff limit)))) := by
  have hsublist : (purgeSelection env db queue cutoff limit).Sublist
      (purgeableRows queue cutoff db) := purgeSelection_sublist env db limit
  have hselected := hsublist.nodup (purgeableRows_nodup db)
  have hdisjoint : List.Disjoint (purgeSelection env db queue cutoff limit)
      (purgeableRows queue cutoff (db.apply (deleteJobs (purgeSelection env
        db queue cutoff limit)))) := by
    intro row hrow hleft
    exact (mem_apply_deleteJobs.mp (mem_purgeableRows.mp hleft).1).2 hrow
  rw [List.perm_ext_iff_of_nodup (purgeableRows_nodup db)
    (List.nodup_append'.mpr ⟨hselected, purgeableRows_nodup _, hdisjoint⟩)]
  intro row
  rw [List.mem_append, mem_purgeableRows, mem_purgeableRows,
    mem_apply_deleteJobs]
  constructor
  · rintro ⟨hrow, hpurgeable⟩
    by_cases hmem : row ∈ purgeSelection env db queue cutoff limit
    · exact Or.inl hmem
    · exact Or.inr ⟨⟨hrow, hmem⟩, hpurgeable⟩
  · rintro (hmem | ⟨⟨hrow, _⟩, hpurgeable⟩)
    · exact mem_purgeableRows.mp (hsublist.subset hmem)
    · exact ⟨hrow, hpurgeable⟩

/-- The clock of every transaction is past the cutoff, and past the earliest
timestamp the server represents. -/
def LaterThan (cutoff : Timestamp) (invocations : List Invocation) : Prop :=
  ∀ invocation ∈ invocations, ∀ n,
    max cutoff timestampFloor < (invocation.env n).now

theorem terminal_inactive {row : JobRow} (h : row.active = true) :
    terminal row = false := by
  rcases (row.active_iff).mp h with hstatus | hstatus <;>
    simp [terminal, hstatus]

theorem terminal_claimable {row : JobRow} (h : claimable row = true) :
    terminal row = false := by
  obtain ⟨hstatus, hbudget⟩ := (claimable_iff row).mp h
  rcases hstatus with hstatus | hstatus
  · simp [terminal, hstatus]
  · simp [terminal, hstatus, hbudget]

theorem purgeable_terminal {row : JobRow}
    (h : purgeable queue cutoff row = true) :
    row.jobType = queue ∧ terminal row = true ∧
      completedBefore cutoff row = true := by
  simp only [purgeable, Bool.and_eq_true, decide_eq_true_eq] at h
  exact ⟨h.1.1, h.1.2, h.2⟩

theorem purgeable_of_later {row : JobRow} {now : Timestamp}
    (hlater : max cutoff timestampFloor < now)
    (hdone : row.doneAt = some now) : purgeable queue cutoff row = false := by
  have hyoung : completedBefore cutoff row = false := by
    simp only [completedBefore, hdone, decide_eq_false_iff_not, not_le]
    exact hlater
  simp [purgeable, hyoung]

theorem purgeable_of_waiting {row : JobRow} (h : terminal row = false) :
    purgeable queue cutoff row = false := by
  simp [purgeable, h]

section

variable {env : Env} {view : Db} {op : Op} {stmt : Stmt} {change : JobChange}

/-- What a statement leaves is no older than its clock, or not terminal. -/
theorem JobStep.after_kept (h : JobStep env view stmt change)
    (hlater : max cutoff timestampFloor < env.now) {row : JobRow}
    (hafter : change.after = some row) :
    purgeable queue cutoff row = false := by
  cases h with
  | enqueue _ _ =>
      cases hafter
      exact purgeable_of_waiting rfl
  | pollClaim _ | notifyClaim _ _ | compatibilityClaim _ | lock _ _ _
  | start _ _ _ _ =>
      cases hafter
      exact purgeable_of_waiting (terminal_inactive rfl)
  | quarantine _ | undecodable _ _ | acknowledge _ _ =>
      cases hafter
      exact purgeable_of_later hlater rfl
  | @recovery _ _ _ reason old _ _ _ _ _ =>
      cases hafter
      by_cases hspent : old.maxAttempts ≤ nextAttempts reason old
      · exact purgeable_of_later hlater (by simp [recoverRow, hspent])
      · apply purgeable_of_waiting
        simp [recoverRow, hspent, terminal]
  | purge _ _ _ _ => cases hafter

/-- A statement that is no purge changes no terminal row. -/
theorem JobStep.before_waiting (h : JobStep env view stmt change)
    (hissued : Issued view op stmt)
    (hop : ∀ queue cutoff limit, op ≠ .purgeTerminalBatch queue cutoff limit)
    {row : JobRow} (hbefore : change.before = some row) :
    terminal row = false := by
  cases h with
  | enqueue _ _ => cases hbefore
  | pollClaim hdue | notifyClaim hdue _ | compatibilityClaim hdue =>
      cases hbefore
      exact terminal_claimable hdue.claimable
  | lock _ _ hlockable =>
      cases hbefore
      rcases (lockable_iff.mp hlockable).2 with ⟨hstatus, hbudget⟩ | hactive
      · exact terminal_claimable ((claimable_iff row).mpr ⟨hstatus, hbudget⟩)
      · exact terminal_inactive ((row.active_iff).mpr hactive.1)
  | quarantine hrow =>
      cases hbefore
      obtain ⟨_, _, fresh, hfresh, hid, _⟩ := hissued.quarantine_inv
      cases Db.row_unique hfresh.stored hrow hid
      exact terminal_inactive ((JobRow.active_iff _).mpr
        (Or.inl hfresh.status))
  | undecodable _ hepoch =>
      cases hbefore
      exact terminal_inactive (epochMatches_iff.mp hepoch).2.1
  | start _ hstart _ _ =>
      cases hbefore
      exact terminal_inactive (startable_iff.mp hstart).active
  | acknowledge _ hepoch =>
      cases hbefore
      exact terminal_inactive (acknowledgeable_iff.mp hepoch).2.2.1
  | recovery _ _ hactive _ _ =>
      cases hbefore
      exact terminal_inactive hactive
  | purge _ _ _ _ =>
      cases hissued with
      | read hread => simp [Stmt.readOnly] at hread
      | purgeTerminal => exact absurd rfl (hop _ _ _)

end

/-- What is known of a statement that ran. -/
theorem performed_executed {rows : TaskConversion} {db : Db}
    {invocation : Invocation} {item : Performed Stmt Db Env Effect}
    (h : item ∈ (program rows invocation.op).performed sql invocation.env 0
      db) :
    Issued item.view invocation.op item.stmt ∧
      Executed item.env item.view item.stmt item.changes ∧
      ∃ k, item.env = invocation.env k := by
  have hissues : (program rows invocation.op).Issues sql
      (fun view stmt => Issued view invocation.op stmt)
      (fun value after => value.Claimed after) db :=
    program_issues invocation.op
  obtain ⟨hissued, _, result, hexec⟩ := hissues.performed
    (P := fun _ => True) trivial (fun _ _ _ _ _ _ _ _ => trivial)
    invocation.env 0 item h
  exact ⟨hissued, exec_executed hexec, Program.performed_env h⟩

/-- A transaction of another session adds no purgeable row. -/
theorem execute_adds_none (rows : TaskConversion) {db : Db}
    {invocation : Invocation}
    (hlater : ∀ n, max cutoff timestampFloor < (invocation.env n).now)
    {row : JobRow} (hpurgeable : purgeable queue cutoff row = true) :
    row ∈ ((program rows invocation.op).execute sql invocation.env
      db).view.jobs.rows → row ∈ db.jobs.rows := by
  apply Program.execute_invariant (M := sql)
    (P := fun view => row ∈ view.jobs.rows → row ∈ db.jobs.rows)
  · exact id
  · intro item hitem hold hrow
    obtain ⟨_, hexecuted, k, henv⟩ := performed_executed hitem
    rcases hexecuted.row_cases hrow with ⟨change, hmem, hafter⟩ | ⟨hstored, _⟩
    · have hkept : purgeable queue cutoff row = false :=
        (hexecuted.jobStep hmem).after_kept (henv ▸ hlater k) hafter
      rw [hpurgeable] at hkept
      cases hkept
    · exact hold hstored

/-- A transaction that is no purge removes no terminal row. -/
theorem execute_removes_none (rows : TaskConversion) {db : Db}
    {invocation : Invocation}
    (hop : ∀ queue cutoff limit,
      invocation.op ≠ .purgeTerminalBatch queue cutoff limit)
    {row : JobRow} (hterminal : terminal row = true)
    (hrow : row ∈ db.jobs.rows) :
    row ∈ ((program rows invocation.op).execute sql invocation.env
      db).view.jobs.rows := by
  apply Program.execute_invariant (M := sql)
    (P := fun view => row ∈ view.jobs.rows)
  · exact hrow
  · intro item hitem hstored
    obtain ⟨hissued, hexecuted, _⟩ := performed_executed hitem
    rcases hexecuted.job_cases row.id with
      ⟨change, hmem, hkey, _⟩ | ⟨_, hsame⟩
    · have hstep := hexecuted.jobStep hmem
      have hbefore : change.before = some row := by
        rw [hstep.reads.before_eq, hkey]
        exact Table.get?_of_mem hstored
      have hwaiting := hstep.before_waiting hissued hop hbefore
      rw [hterminal] at hwaiting
      cases hwaiting
    · exact Table.mem_of_get? (hsame.trans (Table.get?_of_mem hstored))

/-- A turn whose transactions run past the cutoff. -/
def PurgeTurn.Later (cutoff : Timestamp) (turn : PurgeTurn) : Prop :=
  LaterThan cutoff turn.meanwhile

/-- A turn that no other transaction restricts: it has a connection, no row
is locked, and nobody else purged. -/
structure PurgeTurn.Free (cutoff : Timestamp) (turn : PurgeTurn) : Prop where
  later : turn.Later cutoff
  others : ∀ invocation ∈ turn.meanwhile, ∀ queue cutoff limit,
    invocation.op ≠ .purgeTerminalBatch queue cutoff limit
  unlocked : ∃ env, turn.conn = .ok env ∧ ∀ id, env.jobLocked id = false

theorem runMeanwhile_adds_none (rows : TaskConversion) {db : Db}
    {invocations : List Invocation} (hlater : LaterThan cutoff invocations)
    {row : JobRow} (hpurgeable : purgeable queue cutoff row = true)
    (hrow : row ∈ (runMeanwhile rows db invocations).jobs.rows) :
    row ∈ db.jobs.rows := by
  induction invocations generalizing db with
  | nil => exact hrow
  | cons invocation rest ih =>
      have hrest : LaterThan cutoff rest :=
        fun other hother => hlater other (List.mem_cons_of_mem _ hother)
      exact execute_adds_none rows (hlater invocation List.mem_cons_self)
        hpurgeable (ih hrest hrow)

theorem runMeanwhile_removes_none (rows : TaskConversion) {db : Db}
    {invocations : List Invocation}
    (hothers : ∀ invocation ∈ invocations, ∀ queue cutoff limit,
      invocation.op ≠ .purgeTerminalBatch queue cutoff limit)
    {row : JobRow} (hterminal : terminal row = true)
    (hrow : row ∈ db.jobs.rows) :
    row ∈ (runMeanwhile rows db invocations).jobs.rows := by
  induction invocations generalizing db with
  | nil => exact hrow
  | cons invocation rest ih =>
      apply ih fun other hother => hothers other (List.mem_cons_of_mem _ hother)
      exact execute_removes_none rows (hothers invocation List.mem_cons_self)
        hterminal hrow

theorem arrive_subperm (rows : TaskConversion) {db : Db} {turn : PurgeTurn}
    (hlater : turn.Later cutoff) :
    (purgeableRows queue cutoff (turn.arrive rows db)).Subperm
      (purgeableRows queue cutoff db) := by
  apply List.subperm_of_subset (purgeableRows_nodup _)
  intro row hrow
  obtain ⟨hstored, hpurgeable⟩ := mem_purgeableRows.mp hrow
  have hmeanwhile := (turn.order.jobs _).subset hstored
  exact mem_purgeableRows.mpr
    ⟨runMeanwhile_adds_none rows hlater hpurgeable hmeanwhile, hpurgeable⟩

/-- A free turn finds all that there was to purge. -/
theorem arrive_perm (rows : TaskConversion) {db : Db} {turn : PurgeTurn}
    (hfree : turn.Free cutoff) :
    (purgeableRows queue cutoff (turn.arrive rows db)).Perm
      (purgeableRows queue cutoff db) := by
  rw [List.perm_ext_iff_of_nodup (purgeableRows_nodup _)
    (purgeableRows_nodup _)]
  intro row
  constructor
  · exact fun hrow => (arrive_subperm rows hfree.later).subset hrow
  · intro hrow
    obtain ⟨hstored, hpurgeable⟩ := mem_purgeableRows.mp hrow
    have hmeanwhile := runMeanwhile_removes_none rows hfree.others
      (purgeable_terminal hpurgeable).2.1 hstored
    exact mem_purgeableRows.mpr
      ⟨(turn.order.jobs _).symm.subset hmeanwhile, hpurgeable⟩

section

variable {rows : TaskConversion} {limit : Nat} {turns : Nat → PurgeTurn}

/-- One turn of the loop that has a connection. -/
theorem purgeLoop_succ {fuel n total : Nat} {deleted : List JobRow} {db : Db}
    {env : Env} (hconn : (turns n).conn = .ok env) :
    purgeLoop rows queue cutoff limit turns (fuel + 1) n total deleted db =
      let view := (turns n).arrive rows db
      let selected := purgeSelection env view queue cutoff limit
      if selected.length < limit then
        some ⟨.ok (total + selected.length), deleted ++ selected,
          view.apply (deleteJobs selected)⟩
      else
        purgeLoop rows queue cutoff limit turns fuel (n + 1)
          (total + selected.length) (deleted ++ selected)
          (view.apply (deleteJobs selected)) := by
  simp only [purgeLoop, hconn, execute_purgeTerminalBatch,
    deletedRows_deleteJobs]

/-- Every full batch leaves fewer rows, so the loop ends. -/
theorem purgeLoop_ends (hlimit : 0 < limit)
    (hlater : ∀ n, (turns n).Later cutoff) (fuel n total : Nat)
    (deleted : List JobRow) (db : Db)
    (hfuel : (purgeableRows queue cutoff db).length < fuel) :
    ∃ stop, purgeLoop rows queue cutoff limit turns fuel n total deleted db =
      some stop := by
  induction fuel generalizing n total deleted db with
  | zero => exact absurd hfuel (Nat.not_lt_zero _)
  | succ fuel ih =>
      cases hconn : (turns n).conn with
      | error error =>
          refine ⟨⟨.error error, deleted, (turns n).arrive rows db⟩, ?_⟩
          simp only [purgeLoop, hconn]
      | ok env =>
          rw [purgeLoop_succ hconn]
          dsimp only
          split
          · exact ⟨_, rfl⟩
          · rename_i hfull
            apply ih
            have hfound : (purgeableRows queue cutoff ((turns n).arrive rows
                db)).Subperm (purgeableRows queue cutoff db) :=
              arrive_subperm rows (hlater n)
            have hsplit : (purgeableRows queue cutoff ((turns n).arrive rows
                db)).Perm _ := purgeableRows_deleteJobs env _ limit
            have hfewer := hfound.length_le
            rw [hsplit.length_eq, List.length_append] at hfewer
            omega

/-- Whatever the turns were, only purgeable rows are deleted. -/
theorem purgeLoop_safe (fuel n total : Nat) (deleted : List JobRow) (db : Db)
    {stop : PurgeEnd}
    (hstop : purgeLoop rows queue cutoff limit turns fuel n total deleted db =
      some stop) {row : JobRow} (hrow : row ∈ stop.deleted) :
    row ∈ deleted ∨ purgeable queue cutoff row = true := by
  induction fuel generalizing n total deleted db with
  | zero => cases hstop
  | succ fuel ih =>
      cases hconn : (turns n).conn with
      | error error =>
          simp only [purgeLoop, hconn, Option.some.injEq] at hstop
          subst hstop
          exact Or.inl hrow
      | ok env =>
          rw [purgeLoop_succ hconn] at hstop
          dsimp only at hstop
          have hbatch : row ∈ deleted ++ purgeSelection env
              ((turns n).arrive rows db) queue cutoff limit →
              row ∈ deleted ∨ purgeable queue cutoff row = true := by
            intro hmem
            rcases List.mem_append.mp hmem with hold | hnew
            · exact Or.inl hold
            · exact Or.inr (mem_purgeableRows.mp
                ((purgeSelection_sublist _ _ _).subset hnew)).2
          split at hstop
          · cases hstop
            exact hbatch hrow
          · rcases ih _ _ _ _ hstop with hearlier | hpurgeable
            · exact hbatch hearlier
            · exact Or.inr hpurgeable

/-- Free turns delete the purgeable rows of the table they began with. -/
theorem purgeLoop_exact (hfree : ∀ n, (turns n).Free cutoff)
    (fuel n total : Nat) (deleted : List JobRow) (db : Db) {stop : PurgeEnd}
    (hstop : purgeLoop rows queue cutoff limit turns fuel n total deleted db =
      some stop) :
    stop.result = .ok (total + (purgeableRows queue cutoff db).length) ∧
      stop.deleted.Perm (deleted ++ purgeableRows queue cutoff db) := by
  induction fuel generalizing n total deleted db with
  | zero => cases hstop
  | succ fuel ih =>
      obtain ⟨env, hconn, hunlocked⟩ := (hfree n).unlocked
      have hfound : (purgeableRows queue cutoff ((turns n).arrive rows
          db)).Perm (purgeableRows queue cutoff db) :=
        arrive_perm rows (hfree n)
      rw [purgeLoop_succ hconn] at hstop
      dsimp only at hstop
      split at hstop
      · rename_i hshort
        rw [purgeSelection_unlocked _ _ hunlocked] at hstop hshort
        rw [List.length_take, min_lt_iff] at hshort
        rw [List.take_of_length_le (by omega)] at hstop
        cases hstop
        exact ⟨by rw [hfound.length_eq], hfound.append_left deleted⟩
      · obtain ⟨hresult, hdeleted⟩ := ih _ _ _ _ hstop
        have hsplit := hfound.symm.trans (purgeableRows_deleteJobs env
          ((turns n).arrive rows db) limit)
        have hlength := hsplit.length_eq
        rw [List.length_append] at hlength
        refine ⟨?_, hdeleted.trans ?_⟩
        · rw [hresult, hlength, Nat.add_assoc]
        · rw [List.append_assoc]
          exact hsplit.symm.append_left deleted

end

end

/-- When a row was completed, or was due if nobody said when. -/
def JobRow.date (row : JobRow) : Timestamp := row.doneAt.getD row.runAt

theorem completedBefore_iff {cutoff : Timestamp} {row : JobRow} :
    completedBefore cutoff row = true ↔
      row.date ≤ max cutoff timestampFloor := by
  unfold completedBefore JobRow.date
  cases row.doneAt <;> simp

/-- The rows a purge owes its caller to delete: terminal rows of the queue
dated at or before the cutoff. -/
def owedRows (queue : String) (cutoff : Timestamp) (db : Db) : List JobRow :=
  db.jobs.rows.filter fun row =>
    row.jobType = queue && terminal row && decide (row.date ≤ cutoff)

/-- What a purge of a table promises. -/
structure PurgeKeepsPromise (rows : TaskConversion) (queue : String)
    (cutoff : Timestamp) (limit : Int) (db : Db) : Prop where
  /-- it ends, whatever others commit past the cutoff -/
  ends : ∀ turns : Nat → PurgeTurn, (∀ n, (turns n).Later cutoff) →
    ∃ fuel stop, purgeTerminalTasksBatched rows (.ok cutoff) queue limit turns
      fuel db = some stop
  /-- unrestricted, it deletes the owed rows and returns their number -/
  exact : ∀ turns : Nat → PurgeTurn, (∀ n, (turns n).Free cutoff) →
    ∀ fuel stop, purgeTerminalTasksBatched rows (.ok cutoff) queue limit turns
      fuel db = some stop →
    stop.result = .ok (owedRows queue cutoff db).length ∧
      stop.deleted.Perm (owedRows queue cutoff db)
  /-- in any case it deletes only finished rows of its queue -/
  safe : ∀ (turns : Nat → PurgeTurn) fuel stop,
    purgeTerminalTasksBatched rows (.ok cutoff) queue limit turns fuel db =
      some stop →
    ∀ row ∈ stop.deleted, row.jobType = queue ∧ claimable row = false ∧
      row.status ≠ .queued ∧ row.status ≠ .running ∧
      row.tracked.terminal = true

/-- A scan in the order of the table, a connection, and nobody else. -/
def quietTurn : PurgeTurn where
  meanwhile := []
  order := ⟨id, fun _ => List.Perm.refl _, fun _ => rfl⟩
  conn := .ok (quietEnv 0)

theorem quietTurn_free (cutoff : Timestamp) : quietTurn.Free cutoff := by
  refine ⟨?_, ?_, ⟨quietEnv 0, rfl, fun _ => rfl⟩⟩
  · intro invocation hmem
    cases hmem
  · intro invocation hmem
    cases hmem

section

variable {rows : TaskConversion} {queue : String} {cutoff : Timestamp}
  {limit : Int} {db : Db}

theorem mem_owedRows {row : JobRow} :
    row ∈ owedRows queue cutoff db ↔ row ∈ db.jobs.rows ∧
      row.jobType = queue ∧ terminal row = true ∧ row.date ≤ cutoff := by
  simp only [owedRows, List.mem_filter, Bool.and_eq_true, decide_eq_true_eq,
    and_assoc]

theorem purgeTerminalTasksBatched_ends {turns : Nat → PurgeTurn}
    (hlater : ∀ n, (turns n).Later cutoff) :
    ∃ fuel stop, purgeTerminalTasksBatched rows (.ok cutoff) queue limit turns
      fuel db = some stop := by
  refine ⟨(purgeableRows queue cutoff db).length + 1, ?_⟩
  exact purgeLoop_ends (by omega) hlater _ 0 0 [] db (Nat.lt_succ_self _)

theorem purgeTerminalTasksBatched_safe {turns : Nat → PurgeTurn} {fuel : Nat}
    {stop : PurgeEnd}
    (hstop : purgeTerminalTasksBatched rows (.ok cutoff) queue limit turns
      fuel db = some stop) :
    ∀ row ∈ stop.deleted, row.jobType = queue ∧ claimable row = false ∧
      row.status ≠ .queued ∧ row.status ≠ .running ∧
      row.tracked.terminal = true := by
  intro row hrow
  rcases purgeLoop_safe _ _ _ _ _ hstop hrow with hnone | hpurgeable
  · cases hnone
  · obtain ⟨hqueue, hterminal, _⟩ := purgeable_terminal hpurgeable
    refine ⟨hqueue, ?_, ?_, ?_, hterminal⟩
    · cases hclaimable : claimable row with
      | false => rfl
      | true =>
          rw [terminal_claimable hclaimable] at hterminal
          cases hterminal
    · intro hqueued
      simp [terminal, hqueued] at hterminal
    · intro hrunning
      simp [terminal, hrunning] at hterminal

/-- The clamp of the cutoff shows only in rows dated at the very beginning of
time. -/
theorem purgeableRows_eq_owedRows
    (h : ∀ row ∈ db.jobs.rows, row.jobType = queue → terminal row = true →
      cutoff < row.date → timestampFloor < row.date) :
    purgeableRows queue cutoff db = owedRows queue cutoff db := by
  apply List.filter_congr
  intro row hrow
  rw [Bool.eq_iff_iff]
  simp only [purgeable, Bool.and_eq_true, decide_eq_true_eq,
    completedBefore_iff, le_max_iff]
  constructor
  · rintro ⟨⟨hqueue, hterminal⟩, hdated⟩
    refine ⟨⟨hqueue, hterminal⟩, ?_⟩
    by_contra hyoung
    have hafter := h row hrow hqueue hterminal (Int.not_le.mp hyoung)
    rcases hdated with hold | hfloor
    · exact hyoung hold
    · exact absurd hafter (Int.not_lt.mpr hfloor)
  · rintro ⟨hkept, hold⟩
    exact ⟨hkept, Or.inl hold⟩

theorem PurgeKeepsPromise.dated
    (h : PurgeKeepsPromise rows queue cutoff limit db) :
    ∀ row ∈ db.jobs.rows, row.jobType = queue → terminal row = true →
      cutoff < row.date → timestampFloor < row.date := by
  intro row hrow hqueue hterminal hyoung
  by_contra hfloor
  have hfree : ∀ n : Nat, (fun _ => quietTurn : Nat → PurgeTurn) n |>.Free
      cutoff := fun _ => quietTurn_free cutoff
  obtain ⟨fuel, stop, hstop⟩ := h.ends _ fun n => (hfree n).later
  obtain ⟨_, howed⟩ := h.exact _ hfree fuel stop hstop
  obtain ⟨_, hdeleted⟩ := purgeLoop_exact hfree _ _ _ _ _ hstop
  have hpurgeable : row ∈ purgeableRows queue cutoff db := by
    apply mem_purgeableRows.mpr
    refine ⟨hrow, ?_⟩
    simp only [purgeable, Bool.and_eq_true, decide_eq_true_eq,
      completedBefore_iff, le_max_iff]
    exact ⟨⟨hqueue, hterminal⟩, Or.inr (Int.not_lt.mp hfloor)⟩
  have hlisted := howed.subset (hdeleted.symm.subset hpurgeable)
  exact absurd (mem_owedRows.mp hlisted).2.2.2 (Int.not_le.mpr hyoung)

end

/-- For every table, cutoff and limit: a purge keeps its promise exactly if no
terminal row of the queue is dated after the cutoff and not after the earliest
timestamp PostgreSQL represents, to which the cutoff is raised. -/
theorem purge_keeps_promise_iff (rows : TaskConversion) (queue : String)
    (cutoff : Timestamp) (limit : Int) (db : Db) :
    PurgeKeepsPromise rows queue cutoff limit db ↔
      ∀ row ∈ db.jobs.rows, row.jobType = queue → terminal row = true →
        cutoff < row.date → timestampFloor < row.date := by
  constructor
  · exact PurgeKeepsPromise.dated
  · intro hdated
    refine ⟨?_, ?_, ?_⟩
    · exact fun turns hlater => purgeTerminalTasksBatched_ends hlater
    · intro turns hfree fuel stop hstop
      have hexact := purgeLoop_exact hfree _ _ _ _ _ hstop
      rw [purgeableRows_eq_owedRows hdated, Nat.zero_add,
        List.nil_append] at hexact
      exact hexact
    · exact fun turns fuel stop => purgeTerminalTasksBatched_safe

/-- A finished row dated at the earliest timestamp. -/
def floorRow : JobRow :=
  ⟨[1], sampleId, "queue", .done, 1, 3, 0, some (okResult .null), none, none,
    some timestampFloor, 0, none, none⟩

/-- The window reaches back before the earliest timestamp: no row is dated
that early, and the purge still deletes the one dated at it. -/
theorem purge_deletes_floor_row :
    let db : Db := ⟨⟨[floorRow], by decide⟩, ∅⟩
    owedRows "queue" (timestampFloor - microsPerSecond) db = [] ∧
    (∃ stop, purgeTerminalTasksBatched TaskConversion.copying
        (.ok (timestampFloor - microsPerSecond)) "queue" 10
        (fun _ => quietTurn) 2 db = some stop ∧ stop.result = .ok 1 ∧
        stop.deleted = [floorRow]) ∧
    ¬ PurgeKeepsPromise TaskConversion.copying "queue"
      (timestampFloor - microsPerSecond) 10 db := by
  intro db
  refine ⟨rfl, ⟨_, rfl, rfl, rfl⟩, ?_⟩
  intro hpromise
  have hafter := hpromise.dated floorRow List.mem_cons_self rfl rfl
    (by decide)
  exact absurd hafter (by decide)

end ApalisPostgres
