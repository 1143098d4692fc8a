/-
The loop of `prune_workers`.  It goes on while a batch locked as many
registrations as it may, whatever it deleted of them.  Left alone it deletes
all it locked, so it ends, and a batch that is not full has found everything.
-/
import ApalisPostgres.PruneSafety
import ApalisPostgres.TaskPurge

namespace ApalisPostgres

open RowStore

variable {rows : TaskConversion}

/-- The digits of a fraction after the point, without trailing zeros. -/
def fractionDigits : Nat → Nat → Nat → List Char
  | 0, _, _ => []
  | places + 1, fraction, divisor =>
      if fraction = 0 then []
      else
        Nat.digitChar (fraction / divisor) ::
          fractionDigits places (fraction % divisor) (divisor / 10)

def fmtDecimal (integer fraction divisor : Nat) (suffix : String) : String :=
  toString integer ++
    (if fraction = 0 then ""
      else "." ++ String.ofList (fractionDigits 9 fraction divisor)) ++ suffix

/-- `{:?}` of a duration. -/
def debugDuration (duration : Duration) : String :=
  let secs := duration / 1000000000
  let nanos := duration % 1000000000
  if 0 < secs then fmtDecimal secs nanos 100000000 "s"
  else if 1000000 ≤ nanos then
    fmtDecimal (nanos / 1000000) (nanos % 1000000) 100000 "ms"
  else if 1000 ≤ nanos then fmtDecimal (nanos / 1000) (nanos % 1000) 100 "µs"
  else fmtDecimal nanos 0 1 "ns"

def validatePruneWindow (staleAfter window : Duration) : Except Error Unit :=
  if window < staleAfter then
    .error (.invalidArgument
      s!"stale_for ({debugDuration window}) must not be shorter than reenqueue_orphaned_after ({debugDuration staleAfter}): a registration is stale only after that deadline, and pruning it earlier would remove a live worker; when workers of the queue run with different deadlines, use the longest")
  else .ok ()

def pruneBatchLimit : Nat := 1000

/-- One turn of the prune: the transactions that ran since the last batch, and
what the batch's connection observes. -/
structure PruneTurn where
  meanwhile : List Invocation
  conn : Except Error (Nat → Env)

/-- How a prune ended: what it deleted, and in how many batches. -/
structure PruneEnd where
  result : Except Error Nat
  deleted : List WorkerRow
  batches : Nat
  db : Db

/-- The registrations a transaction deleted. -/
def deletedWorkers (effects : List Effect) : List WorkerRow :=
  (workerChanges effects).filterMap fun change =>
    if change.after.isNone then change.before else none

section

variable (rows)

/-- The loop of `prune_workers`, `none` while it goes on. -/
def pruneLoop (queue : String) (window : Duration) (limit : Nat)
    (turns : Nat → PruneTurn) :
    Nat → Nat → Nat → List WorkerRow → Db → Option PruneEnd
  | 0, _, _, _, _ => none
  | fuel + 1, n, total, deleted, db =>
      let view := runMeanwhile rows db (turns n).meanwhile
      match (turns n).conn with
      | .error error => some ⟨.error error, deleted, n, view⟩
      | .ok clock =>
          let stop := (pruneWorkersBatch queue window limit).execute sql clock
            view
          match stop.outcome with
          | .error error => some ⟨.error error, deleted, n, stop.view⟩
          | .ok batch =>
              if batch.locked < limit then
                some ⟨.ok (total + batch.deleted),
                  deleted ++ deletedWorkers stop.effects, n + 1, stop.view⟩
              else
                pruneLoop queue window limit turns fuel (n + 1)
                  (total + batch.deleted)
                  (deleted ++ deletedWorkers stop.effects) stop.view

/-- `staleAfter` is the configured `reenqueue_orphaned_after`. -/
def pruneWorkers (queue : String) (staleAfter window : Duration)
    (turns : Nat → PruneTurn) (fuel : Nat) (db : Db) : Option PruneEnd :=
  match validatePruneWindow staleAfter window with
  | .error error => some ⟨.error error, [], 0, db⟩
  | .ok () => pruneLoop rows queue window pruneBatchLimit turns fuel 0 0 [] db

end

/-- The registrations a prune is for: of its queue, stale, and named by no
job. -/
def prunable (db : Db) (queue : String) (window : Duration) (now : Timestamp)
    (row : WorkerRow) : Bool :=
  row.workerType = queue && elapsedAtLeast window now row.lastSeen &&
    !referenced db row.key

/-- Nobody else is there: no transaction ran in between, no registration is
locked, and the snapshot of the locking statement is the database. -/
structure PruneTurn.Quiet (turn : PruneTurn) (clock : Nat → Env) : Prop where
  alone : turn.meanwhile = []
  conn : turn.conn = .ok clock
  unlocked : ∀ n key, (clock n).workerLocked key = false
  snapshot : ∀ n key, (clock n).referenceSeen key = true

section

variable {queue : String} {window : Duration} {limit : Nat}

theorem prunable_congr {db other : Db} (h : db.jobs = other.jobs)
    (now : Timestamp) (row : WorkerRow) :
    prunable db queue window now row = prunable other queue window now row := by
  simp only [prunable, referenced, h]

/-- The registrations a batch locks while nobody else is there. -/
theorem prunableSelection_quiet {env : Env} {db : Db}
    (hunlocked : ∀ key, env.workerLocked key = false)
    (hsnapshot : ∀ key, env.referenceSeen key = true) :
    prunableSelection env db queue window limit =
      ((db.workers.rows.filter
        (prunable db queue window env.now)).insertionSort
          workerIdOrder).take limit := by
  unfold prunableSelection
  congr 2
  apply List.filter_congr
  intro row _
  simp [prunable, hunlocked, hsnapshot]

theorem workers_nodup (db : Db) : db.workers.rows.Nodup :=
  db.workers.keyed.of_map

theorem worker_unique {db : Db} {first second : WorkerRow}
    (hfirst : first ∈ db.workers.rows) (hsecond : second ∈ db.workers.rows)
    (hkey : first.key = second.key) : first = second := by
  have hget := Table.get?_of_mem hfirst
  rw [hkey, Table.get?_of_mem hsecond] at hget
  exact (Option.some.inj hget).symm

/-- What a batch finds unreferenced among the locked registrations is what it
has locked. -/
theorem unreferencedSelection_perm {db : Db} {selected : List WorkerRow}
    (hnodup : selected.Nodup)
    (hselected : ∀ row ∈ selected, row ∈ db.workers.rows ∧
      row.workerType = queue ∧ referenced db row.key = false) :
    (unreferencedSelection db queue (selected.map WorkerRow.id)).Perm
      selected := by
  rw [unreferencedSelection,
    List.perm_ext_iff_of_nodup ((workers_nodup db).filter _) hnodup]
  intro row
  simp only [List.mem_filter, Bool.and_eq_true,
    decide_eq_true_eq, Bool.not_eq_true', List.contains_iff_mem,
    List.mem_map]
  constructor
  · rintro ⟨hrow, ⟨hqueue, found, hfound, hid⟩, _⟩
    obtain ⟨hstored, htype, _⟩ := hselected found hfound
    have hkey : found.key = row.key := by
      rw [WorkerRow.key, WorkerRow.key, hid, htype, hqueue]
    rwa [← worker_unique hstored hrow hkey]
  · intro hrow
    obtain ⟨hstored, hqueue, hfree⟩ := hselected row hrow
    exact ⟨hstored, ⟨hqueue, row, hrow, rfl⟩, hfree⟩

theorem workerChanges_pruneEffects (selected : List WorkerRow) :
    workerChanges (pruneEffects selected) =
      selected.map fun row => ⟨row.key, .prune, some row, none⟩ := by
  simp [workerChanges, pruneEffects, List.filterMap_map, Effect.workerChange?,
    Function.comp_def]

theorem deletedWorkers_pruneEffects (selected : List WorkerRow) :
    deletedWorkers (pruneEffects selected) = selected := by
  rw [deletedWorkers, workerChanges_pruneEffects]
  simp [List.filterMap_map]

theorem apply_pruneEffects_jobs (db : Db) (selected : List WorkerRow) :
    (db.apply (pruneEffects selected)).jobs = db.jobs := by
  apply Db.apply_jobs_eq
  intro change hchange
  obtain ⟨row, _, heq⟩ := List.mem_map.mp hchange
  cases heq

/-- The deletion of a batch removes what it selected and nothing else. -/
theorem mem_apply_pruneEffects {db : Db} {ids : List String}
    {row : WorkerRow} :
    row ∈ (db.apply (pruneEffects
        (unreferencedSelection db queue ids))).workers.rows ↔
      row ∈ db.workers.rows ∧ row ∉ unreferencedSelection db queue ids := by
  have hexecuted := exec_executed (exec_deleteUnreferenced queue ids
    ⟨0, fun _ => false, fun _ => false, fun _ => true, true⟩ db)
  have hchange : ∀ old ∈ unreferencedSelection db queue ids,
      (⟨old.key, .prune, some old, none⟩ : WorkerChange) ∈ workerChanges
        (pruneEffects (unreferencedSelection db queue ids)) := by
    intro old hold
    rw [workerChanges_pruneEffects]
    exact List.mem_map_of_mem hold
  constructor
  · intro hrow
    have hget := Table.get?_of_mem hrow
    rcases hexecuted.worker_cases row.key with
      ⟨change, hmem, _, hafter⟩ | ⟨hnot, hsame⟩
    · rw [workerChanges_pruneEffects] at hmem
      obtain ⟨old, _, rfl⟩ := List.mem_map.mp hmem
      rw [hafter] at hget
      cases hget
    · refine ⟨Table.mem_of_get? (hsame.symm.trans hget), ?_⟩
      intro hselected
      exact hnot (List.mem_map.mpr ⟨_, hchange row hselected, rfl⟩)
  · rintro ⟨hrow, hkept⟩
    rcases hexecuted.worker_cases row.key with
      ⟨change, hmem, hkey, _⟩ | ⟨_, hsame⟩
    · rw [workerChanges_pruneEffects] at hmem
      obtain ⟨old, hold, rfl⟩ := List.mem_map.mp hmem
      have hstored := (List.mem_filter.mp hold).1
      exact absurd (worker_unique hstored hrow hkey ▸ hold) hkept
    · exact Table.mem_of_get? (hsame.trans (Table.get?_of_mem hrow))

/-- What a batch does, whatever it observes. -/
theorem execute_pruneWorkersBatch (clock : Nat → Env) (db : Db) :
    let ids := (prunableSelection (clock 0) db queue window limit).map
      WorkerRow.id
    let gone := unreferencedSelection db queue ids
    (pruneWorkersBatch queue window limit).execute sql clock db =
      ⟨db.apply (pruneEffects gone), pruneEffects gone,
        .ok ⟨ids.length, gone.length⟩⟩ := by
  intro ids gone
  have hlock := exec_lockPrunable queue window limit (clock 0) db
  apply Program.execute_of_runBody
  rw [pruneWorkersBatch, query_bind, Program.runBody_statement hlock]
  split
  · rename_i hnone
    have hids : ids = [] := List.length_eq_zero_iff.mp hnone
    have hgone : gone = [] := by
      simp [gone, unreferencedSelection, hids]
    rw [hgone, hids]
    rfl
  · exact Program.runBody_statement
      (exec_deleteUnreferenced queue ids (clock 1) db)

/-- What one batch leaves of the registrations: it deletes prunable ones, and
all there are unless it is full. -/
structure BatchDeleted (queue : String) (window : Duration) (limit : Nat)
    (now : Timestamp) (db : Db) (batch : PruneBatch) (gone : List WorkerRow)
    (next : Db) : Prop where
  locked : batch.locked = gone.length
  deleted : batch.deleted = gone.length
  jobs : next.jobs = db.jobs
  split : db.workers.rows.Perm (gone ++ next.workers.rows)
  taken : ∀ row ∈ gone, prunable db queue window now row = true
  all : batch.locked < limit → ∀ row ∈ next.workers.rows,
    prunable db queue window now row = false

variable (queue window limit) in
/-- A batch deletes all it locked while nobody else is there. -/
theorem pruneWorkersBatch_quiet (clock : Nat → Env) (db : Db)
    (hunlocked : ∀ key, (clock 0).workerLocked key = false)
    (hsnapshot : ∀ key, (clock 0).referenceSeen key = true) :
    ∃ batch gone next, (pruneWorkersBatch queue window limit).execute sql clock
        db = ⟨next, pruneEffects gone, .ok batch⟩ ∧
      BatchDeleted queue window limit (clock 0).now db batch gone next := by
  refine ⟨_, _, _, execute_pruneWorkersBatch clock db, ?_⟩
  rw [prunableSelection_quiet hunlocked hsnapshot]
  generalize hsorted : (db.workers.rows.filter (prunable db queue window
    (clock 0).now)).insertionSort workerIdOrder = sorted
  have hmem : ∀ row, row ∈ sorted ↔ row ∈ db.workers.rows ∧
      prunable db queue window (clock 0).now row = true := by
    intro row
    rw [← hsorted, List.mem_insertionSort, List.mem_filter]
  have hnodup : sorted.Nodup := by
    rw [← hsorted]
    exact (List.perm_insertionSort _ _).nodup_iff.mpr
      ((workers_nodup db).filter _)
  have hselected : ∀ row ∈ sorted.take limit, row ∈ db.workers.rows ∧
      row.workerType = queue ∧ referenced db row.key = false := by
    intro row hrow
    obtain ⟨hstored, hprunable⟩ := (hmem row).mp (List.mem_of_mem_take hrow)
    simp only [prunable, Bool.and_eq_true, decide_eq_true_eq,
      Bool.not_eq_true'] at hprunable
    exact ⟨hstored, hprunable.1.1, hprunable.2⟩
  have hgone := unreferencedSelection_perm
    ((List.take_sublist limit sorted).nodup hnodup) hselected
  generalize hids : (sorted.take limit).map WorkerRow.id = ids at hgone
  refine ⟨?_, rfl, apply_pruneEffects_jobs db _, ?_, ?_, ?_⟩
  · rw [hgone.length_eq, ← hids, List.length_map]
  · rw [List.perm_ext_iff_of_nodup (workers_nodup db)]
    · intro row
      rw [List.mem_append, mem_apply_pruneEffects]
      constructor
      · intro hrow
        by_cases hdeleted : row ∈ unreferencedSelection db queue ids
        · exact Or.inl hdeleted
        · exact Or.inr ⟨hrow, hdeleted⟩
      · rintro (hdeleted | ⟨hrow, _⟩)
        · exact (List.mem_filter.mp hdeleted).1
        · exact hrow
    · refine List.nodup_append'.mpr
        ⟨(workers_nodup db).filter _, workers_nodup _, ?_⟩
      intro row hdeleted hrow
      exact (mem_apply_pruneEffects.mp hrow).2 hdeleted
  · intro row hrow
    have htaken := List.mem_of_mem_take (hgone.subset hrow)
    exact ((hmem row).mp htaken).2
  · intro hshort row hrow
    obtain ⟨hstored, hkept⟩ := mem_apply_pruneEffects.mp hrow
    rw [Bool.eq_false_iff]
    intro hprunable
    -- a batch that is not full has taken every prunable registration
    have hall : sorted.take limit = sorted := by
      apply List.take_of_length_le
      rw [← hids, List.length_map, List.length_take] at hshort
      dsimp only at hshort
      omega
    apply hkept
    apply hgone.symm.subset
    rw [hall]
    exact (hmem row).mpr ⟨hstored, hprunable⟩

end

/-- What a prune does from its `n`-th batch on while nobody else is there: it
deletes prunable registrations and stops when there are none. -/
structure PrunedAlone (queue : String) (window : Duration)
    (clocks : Nat → Nat → Env) (n : Nat) (db : Db) (gone : List WorkerRow)
    (stop : PruneEnd) : Prop where
  batches : n < stop.batches
  jobs : stop.db.jobs = db.jobs
  split : db.workers.rows.Perm (gone ++ stop.db.workers.rows)
  taken : ∀ row ∈ gone, ∃ k, n ≤ k ∧ k < stop.batches ∧
    prunable db queue window (clocks k 0).now row = true
  rest : ∀ row ∈ stop.db.workers.rows,
    prunable db queue window (clocks (stop.batches - 1) 0).now row = false

section

variable {queue : String} {window : Duration} {limit : Nat}
  {turns : Nat → PruneTurn} {clocks : Nat → Nat → Env}

variable (rows queue window limit) in
/-- Every full batch leaves fewer registrations, so the loop ends. -/
theorem pruneLoop_alone (hlimit : 0 < limit)
    (hquiet : ∀ n, (turns n).Quiet (clocks n)) (fuel n total : Nat)
    (deleted : List WorkerRow) (db : Db)
    (hfuel : db.workers.rows.length < fuel) :
    ∃ gone stop, pruneLoop rows queue window limit turns fuel n total deleted
        db = some stop ∧
      stop.result = .ok (total + gone.length) ∧
      stop.deleted = deleted ++ gone ∧
      PrunedAlone queue window clocks n db gone stop := by
  induction fuel generalizing n total deleted db with
  | zero => exact absurd hfuel (Nat.not_lt_zero _)
  | succ fuel ih =>
      obtain ⟨halone, hconn, hunlocked, hsnapshot⟩ := hquiet n
      obtain ⟨batch, gone, next, hbatch, hleft⟩ :=
        pruneWorkersBatch_quiet queue window limit (clocks n) db
          (hunlocked 0) (hsnapshot 0)
      have hturn : pruneLoop rows queue window limit turns (fuel + 1) n total
          deleted db =
          if batch.locked < limit then
            some ⟨.ok (total + batch.deleted), deleted ++ gone, n + 1, next⟩
          else
            pruneLoop rows queue window limit turns fuel (n + 1)
              (total + batch.deleted) (deleted ++ gone) next := by
        simp only [pruneLoop, hconn, halone, runMeanwhile, List.foldl_nil,
          hbatch, deletedWorkers_pruneEffects]
      rw [hturn]
      split
      · rename_i hshort
        refine ⟨gone, _, rfl, by rw [hleft.deleted], rfl, Nat.lt_succ_self n,
          hleft.jobs, hleft.split, ?_, hleft.all hshort⟩
        intro row hrow
        exact ⟨n, Nat.le_refl n, Nat.lt_succ_self n, hleft.taken row hrow⟩
      · rename_i hfull
        have hfewer : next.workers.rows.length < fuel := by
          have hlength := hleft.split.length_eq
          rw [List.length_append] at hlength
          have hlocked := hleft.locked
          omega
        obtain ⟨more, stop, hstop, hresult, hdeleted, hrest⟩ := ih (n + 1)
          (total + batch.deleted) (deleted ++ gone) next hfewer
        refine ⟨gone ++ more, stop, hstop, ?_, ?_, ?_⟩
        · rw [hresult, hleft.deleted, List.length_append, Nat.add_assoc]
        · rw [hdeleted, List.append_assoc]
        · refine ⟨Nat.lt_of_succ_lt hrest.batches,
            hrest.jobs.trans hleft.jobs, ?_, ?_, ?_⟩
          · rw [List.append_assoc]
            exact hleft.split.trans (hrest.split.append_left gone)
          · intro row hrow
            rcases List.mem_append.mp hrow with hnow | hlater
            · exact ⟨n, Nat.le_refl n, Nat.lt_of_succ_lt hrest.batches,
                hleft.taken row hnow⟩
            · obtain ⟨k, hk, hbefore, hprunable⟩ :=
                hrest.taken row hlater
              exact ⟨k, Nat.le_of_succ_le hk, hbefore,
                prunable_congr hleft.jobs _ row ▸ hprunable⟩
          · intro row hrow
            rw [← prunable_congr hleft.jobs]
            exact hrest.rest row hrow

/-- Over a clock that does not run backwards, the deleted registrations are
those that are prunable at the end. -/
theorem PrunedAlone.exact {n : Nat} {db : Db} {gone : List WorkerRow}
    {stop : PruneEnd} (h : PrunedAlone queue window clocks n db gone stop)
    (hclock : ∀ first second, first ≤ second →
      (clocks first 0).now ≤ (clocks second 0).now) (row : WorkerRow)
    (hrow : row ∈ db.workers.rows) :
    row ∈ gone ↔ prunable db queue window
      (clocks (stop.batches - 1) 0).now row = true := by
  constructor
  · intro hgone
    obtain ⟨k, _, hbefore, hprunable⟩ := h.taken row hgone
    have hlater := hclock k (stop.batches - 1) (by omega)
    simp only [prunable, Bool.and_eq_true] at hprunable ⊢
    exact ⟨⟨hprunable.1.1, elapsedAtLeast_mono hprunable.1.2 hlater le_rfl⟩,
      hprunable.2⟩
  · intro hprunable
    rcases List.mem_append.mp (h.split.subset hrow) with hgone | hleft
    · exact hgone
    · rw [h.rest row hleft] at hprunable
      cases hprunable

end

/-- A registration that a step of the server removes was pruned. -/
theorem step_prunes {server after : PgServer}
    (h : (pgServer rows).Reachable server) {event : PgEvent}
    (hevent : (pgServer rows).step server event = some after)
    {worker queue : String} {row : WorkerRow}
    (hrow : server.db.workers.get? (worker, queue) = some row)
    (hgone : after.db.workers.get? (worker, queue) = none) :
    ∃ index session, event = .finish index ∧
      server.sessions[index]? = some session ∧
      Prunes session server.db worker queue row := by
  rcases (Server.step_cases hevent).db_cases with hsame |
    ⟨index, session, value, hfinish, hsession, hstage, hdb, _, _⟩
  · rw [hsame, hrow] at hgone
    cases hgone
  · have hrunning : session.stage.isRunning = true := by rw [hstage]; rfl
    rw [hdb] at hgone
    exact ⟨index, session, hfinish, hsession,
      removed_by_prune h hsession hrunning hrow hgone⟩

/-- A registration that a committed job names survives every step. -/
theorem step_keeps_referenced {server after : PgServer}
    (h : (pgServer rows).Reachable server) {event : PgEvent}
    (hevent : (pgServer rows).step server event = some after)
    {worker queue : String}
    (hnamed : referenced server.db (worker, queue) = true) :
    (after.db.workers.get? (worker, queue)).isSome = true := by
  obtain ⟨id, job, hjob, howner, hqueue⟩ := referenced_iff.mp hnamed
  have hregistered := reachable_ownersRegistered h id job worker hjob howner
  rw [hqueue] at hregistered
  obtain ⟨row, hrow⟩ := Option.isSome_iff_exists.mp hregistered
  by_contra hgone
  obtain ⟨_, _, _, _, hprunes⟩ := step_prunes h hevent hrow
    (Option.not_isSome_iff_eq_none.mp hgone)
  rw [hprunes.unreferenced] at hnamed
  cases hnamed

theorem pruneWorkers_refused {queue : String} {staleAfter window : Duration}
    (h : window < staleAfter) (turns : Nat → PruneTurn) (fuel : Nat)
    (db : Db) :
    ∃ message, pruneWorkers rows queue staleAfter window turns fuel db =
      some ⟨.error (.invalidArgument message), [], 0, db⟩ := by
  simp [pruneWorkers, validatePruneWindow, h]

theorem pruneWorkers_alone {queue : String} {staleAfter window : Duration}
    (h : staleAfter ≤ window) {turns : Nat → PruneTurn}
    {clocks : Nat → Nat → Env} (hquiet : ∀ n, (turns n).Quiet (clocks n))
    (db : Db) :
    ∃ fuel stop, pruneWorkers rows queue staleAfter window turns fuel db =
        some stop ∧ stop.result = .ok stop.deleted.length ∧
      PrunedAlone queue window clocks 0 db stop.deleted stop := by
  obtain ⟨gone, stop, hstop, hresult, hdeleted, halone⟩ :=
    pruneLoop_alone rows queue window pruneBatchLimit (by decide) hquiet
      (db.workers.rows.length + 1) 0 0 [] db (Nat.lt_succ_self _)
  rw [List.nil_append] at hdeleted
  subst hdeleted
  refine ⟨db.workers.rows.length + 1, stop, ?_, by simpa using hresult, halone⟩
  rw [pruneWorkers, validatePruneWindow, if_neg (Nat.not_lt.mpr h)]
  exact hstop

/-- Whatever interleaves with a prune, the owners of the jobs stay registered,
nothing refuses it, and a registration disappears only as it should; left alone
it deletes every prunable registration and returns their number. -/
theorem prune_workers_safe (rows : TaskConversion) :
    (∀ server : PgServer, (pgServer rows).Reachable server →
      server.db.OwnersRegistered ∧
      (∀ (index : Nat) (session : PgSession) (queue : String)
        (window : Duration) (limit : Nat),
        server.sessions[index]? = some session →
        session.op = .pruneWorkersBatch queue window limit →
        ∀ error, session.stage ≠ .refused error) ∧
      ∀ event after, (pgServer rows).step server event = some after →
        ∀ worker queue,
          (referenced server.db (worker, queue) = true →
            (after.db.workers.get? (worker, queue)).isSome = true) ∧
          ∀ row, server.db.workers.get? (worker, queue) = some row →
            after.db.workers.get? (worker, queue) = none →
            ∃ index session, event = .finish index ∧
              server.sessions[index]? = some session ∧
              Prunes session server.db worker queue row) ∧
    ∀ (queue : String) (staleAfter window : Duration)
      (turns : Nat → PruneTurn) (db : Db),
      (window < staleAfter → ∀ fuel, ∃ message,
        pruneWorkers rows queue staleAfter window turns fuel db =
          some ⟨.error (.invalidArgument message), [], 0, db⟩) ∧
      ∀ clocks : Nat → Nat → Env, staleAfter ≤ window →
        (∀ n, (turns n).Quiet (clocks n)) →
        ∃ fuel stop, pruneWorkers rows queue staleAfter window turns fuel db =
            some stop ∧ stop.result = .ok stop.deleted.length ∧
          PrunedAlone queue window clocks 0 db stop.deleted stop ∧
          ((∀ first second, first ≤ second →
              (clocks first 0).now ≤ (clocks second 0).now) →
            ∀ row ∈ db.workers.rows, row ∈ stop.deleted ↔
              prunable db queue window (clocks (stop.batches - 1) 0).now row =
                true) := by
  constructor
  · intro server h
    refine ⟨reachable_ownersRegistered h, ?_, ?_⟩
    · intro index session queue window limit hsession hop error hrefused
      have htotal := Server.reachable_total h hsession
        (by rw [hop]; exact pruneWorkersBatch_total queue window limit)
      rw [hrefused] at htotal
      exact htotal
    · intro event after hevent worker queue
      exact ⟨fun hnamed => step_keeps_referenced h hevent hnamed,
        fun row hrow hgone => step_prunes h hevent hrow hgone⟩
  · intro queue staleAfter window turns db
    constructor
    · intro hshort fuel
      exact pruneWorkers_refused hshort turns fuel db
    · intro clocks hwindow hquiet
      obtain ⟨fuel, stop, hstop, hresult, halone⟩ :=
        pruneWorkers_alone hwindow hquiet db
      exact ⟨fuel, stop, hstop, hresult, halone,
        fun hclock row hrow => halone.exact hclock row hrow⟩

/-- A claim shares its registration while a prune looks for candidates.  The
prune skips it, and deletes the other one. -/
theorem prune_workers_safe_claimed :
    let early : Env := quietEnv 0
    let late : Env := { early with now := 90000000 }
    let skips : Env := { late with workerLocked := fun key => key.1 = "busy" }
    let events : List PgEvent := [
      .begin (.registerWorker "idle" "queue" storageName "" "token" 30),
      .statement 0 early, .statement 0 early, .statement 0 early, .finish 0,
      .begin (.registerWorker "busy" "queue" storageName "" "other" 30),
      .statement 1 early, .statement 1 early, .statement 1 early, .finish 1,
      .begin (.pushTasksOnConn "queue" [sampleTask]), .statement 2 early,
      .finish 2,
      .begin (.fetchNext "busy" "queue" 10 (some "other")),
      .statement 3 late,
      .begin (.pruneWorkersBatch "queue" 60000000000 1000),
      .statement 4 skips, .statement 3 late, .finish 3, .statement 4 late]
    let server := ((pgServer .copying).run idleServer events).getD idleServer
    let turns : Nat → PruneTurn := fun _ => ⟨[], .ok fun _ => late⟩
    (∃ after row, (pgServer .copying).step server (.finish 4) = some after ∧
        after.db.OwnersRegistered ∧
        (after.db.workers.get? ("busy", "queue")).isSome = true ∧
        after.db.workers.get? ("idle", "queue") = none ∧
        ∃ session, server.sessions[4]? = some session ∧
          Prunes session server.db "idle" "queue" row) ∧
      ∃ fuel stop, pruneWorkers .copying "queue" 60000000000 60000000000
        turns fuel server.db = some stop ∧ stop.result = .ok 1 := by
  intro early late skips events server turns
  have hserver : (pgServer .copying).Reachable server :=
    ⟨idleServer, rfl, Machine.follows_of_run events
      (Machine.run_eq_getD idleServer (by decide +kernel))⟩
  obtain ⟨hrun, hloop⟩ := prune_workers_safe .copying
  obtain ⟨_, _, hsteps⟩ := hrun server hserver
  constructor
  · have hends : ((pgServer .copying).step server (.finish 4)).map (fun after =>
        (after.db.workers.get? ("idle", "queue")).isNone) = some true := by
      decide +kernel
    obtain ⟨after, hafter, hnone⟩ := Option.map_eq_some_iff.mp hends
    have hgone : after.db.workers.get? ("idle", "queue") = none :=
      Option.isNone_iff_eq_none.mp hnone
    have hidle : (server.db.workers.get? ("idle", "queue")).isSome = true := by
      decide +kernel
    obtain ⟨row, hrow⟩ := Option.isSome_iff_exists.mp hidle
    obtain ⟨index, session, hfinish, hsession, hprunes⟩ :=
      (hsteps _ _ hafter "idle" "queue").2 row hrow hgone
    cases hfinish
    exact ⟨after, row, hafter, (hrun after (hserver.step hafter)).1,
      (hsteps _ _ hafter "busy" "queue").1 (by decide +kernel), hgone,
      session, hsession, hprunes⟩
  · obtain ⟨fuel, stop, hstop, hresult, halone, hexact⟩ :=
      (hloop "queue" 60000000000 60000000000 turns server.db).2
        (fun _ _ => late) (by decide) fun _ =>
          ⟨rfl, rfl, fun _ _ => rfl, fun _ _ => rfl⟩
    refine ⟨fuel, stop, hstop, ?_⟩
    have hwhich := hexact fun _ _ _ => by exact Int.le_refl _
    have hcount : stop.deleted.Perm (server.db.workers.rows.filter
        (prunable server.db "queue" 60000000000 late.now)) := by
      have hnodup := (halone.split.nodup_iff.mp (workers_nodup server.db))
      rw [List.perm_ext_iff_of_nodup (List.nodup_append'.mp hnodup).1
        ((workers_nodup server.db).filter _)]
      intro row
      rw [List.mem_filter]
      constructor
      · intro hrow
        have hstored := halone.split.symm.subset (List.mem_append_left _ hrow)
        exact ⟨hstored, (hwhich row hstored).mp hrow⟩
      · rintro ⟨hstored, hprunable⟩
        exact (hwhich row hstored).mpr hprunable
    have hone : (server.db.workers.rows.filter (prunable server.db "queue"
        60000000000 late.now)).length = 1 := by decide +kernel
    rw [hresult, hcount.length_eq, hone]

end ApalisPostgres
