/-
How a job row changes when sessions interleave.  A session writes a row only
under its lock, so what it leaves of a row is told by the committed row and by
its own statements.
-/
import ApalisPostgres.Registrations

namespace ApalisPostgres

open RowStore

variable {rows : TaskConversion}

theorem mem_written_jobs {trace : List (Ran sql)} {change : JobChange}
    (h : change ∈ jobChanges (written trace)) :
    ∃ item ∈ trace, change ∈ jobChanges item.changes := by
  rw [mem_jobChanges] at h
  obtain ⟨item, hitem, hchange⟩ := List.mem_flatMap.mp h
  exact ⟨item, hitem, mem_jobChanges.mpr hchange⟩

theorem written_jobs_keys {trace : List (Ran sql)} {change : JobChange}
    (h : change ∈ jobChanges (written trace)) {row : JobRow}
    (hafter : change.after = some row) : row.id = change.key := by
  obtain ⟨item, _, hchange⟩ := mem_written_jobs h
  exact ((exec_executed item.executed).jobStep hchange).reads.key_eq row hafter

/-- A job row changes only by a write under its id, which is locked. -/
theorem written_jobs_cases (db : Db) (trace : List (Ran sql)) (id : String) :
    (db.apply (written trace)).jobs.get? id = db.jobs.get? id ∨
      (Resource.job id, LockMode.update) ∈ rowLocks.held trace := by
  by_cases hkey : id ∈ (jobChanges (written trace)).map RowChange.key
  · obtain ⟨change, hchange, rfl⟩ := List.mem_map.mp hkey
    obtain ⟨item, hitem, hmem⟩ := mem_written_jobs hchange
    right
    refine List.mem_flatMap.mpr ⟨item, hitem, ?_⟩
    apply List.mem_append_right
    exact List.mem_flatMap.mpr
      ⟨_, mem_jobChanges.mp hmem, List.mem_cons_self⟩
  · left
    rw [Db.apply_jobs]
    exact db.jobs.get?_applyChanges_of_not_mem
      (fun change hchange row hafter => written_jobs_keys hchange hafter) hkey

theorem written_jobs_congr {first second : Db} (trace : List (Ran sql))
    {id : String} (h : first.jobs.get? id = second.jobs.get? id) :
    (first.apply (written trace)).jobs.get? id =
      (second.apply (written trace)).jobs.get? id := by
  rw [Db.apply_jobs, Db.apply_jobs]
  exact Table.get?_applyChanges_congr
    (fun change hchange row hafter => written_jobs_keys hchange hafter) h

theorem clash_job (id : String) :
    rowLocks.clash (.job id, .update) (.job id, .update) = true := by
  simp [LockModel.clash, rowLocks, LockMode.conflicts]

/-- What a statement keeps between the committed row and the row its session
leaves holds in every session that runs. -/
theorem reachable_rowsKept
    (P : Op → List (Ran sql) → Option JobRow → String → JobRow → Prop)
    (hself : ∀ op trace id row, P op trace (some row) id row)
    (hran : ∀ (op : Op) (before : List (Ran sql)) (item : Ran sql)
      (stored : Option JobRow) (id : String) (row : JobRow),
      Ordered op before item.stmt →
      (∀ found, item.view.jobs.get? id = some found →
        P op before stored id found) →
      (item.view.apply item.changes).jobs.get? id = some row →
        P op (before ++ [item]) stored id row)
    {server : PgServer} (h : (pgServer rows).Reachable server) :
    ∀ (index : Nat) (session : PgSession),
      server.sessions[index]? = some session →
      session.stage.isRunning = true →
      ∀ id row, (server.db.apply session.pending).jobs.get? id = some row →
        P session.op session.trace (server.db.jobs.get? id) id row := by
  apply h.invariant_of_reachable fun server : PgServer =>
    ∀ (index : Nat) (session : PgSession),
      server.sessions[index]? = some session →
      session.stage.isRunning = true →
      ∀ id row, (server.db.apply session.pending).jobs.get? id = some row →
        P session.op session.trace (server.db.jobs.get? id) id row
  · rintro start rfl index session hsession
    simp at hsession
  · intro state after event hreachable hstate hevent index session hsession
      hrunning id row hrow
    have hmoves := Server.step_cases hevent
    rcases hmoves.db_cases with hsame |
      ⟨turn, writer, value, rfl, hwriter, hstage, hdb, hturn, hothers⟩
    · rw [hsame] at hrow ⊢
      rcases hmoves.sessions hsession with
        hold | ⟨_, op, rfl⟩ | ⟨old, hold, hadvances⟩
      · exact hstate index session hold hrunning id row hrow
      · rw [show state.db.jobs.get? id = some row from hrow]
        exact hself _ _ id row
      · have hafter := hreachable.step hevent
        have hrun := hadvances.running
        cases hadvances with
        | ran item _ hbase hview =>
            have hissued : ({ old with trace := old.trace ++ [item] } :
                PgSession).Issued old.trace item := List.prefix_rfl
            have hordered := (session_ordered hafter hsession hissued).1
            have hrow' : (item.view.apply item.changes).jobs.get? id =
                some row := by
              rw [← hrow]
              exact congrArg (fun db : Db => db.jobs.get? id)
                (Session.apply_ran hview).symm
            refine hran old.op old.trace item _ id row hordered ?_ hrow'
            intro found hfound
            rw [hview] at hfound
            exact hstate index old hold hrun id found hfound
        | faulted _ _ | committed _ | refused _ | aborted _ _ =>
            cases hrunning
    · by_cases heq : index = turn
      · subst heq
        rw [hturn] at hsession
        obtain rfl := Option.some.inj hsession
        cases hrunning
      · rw [hothers index heq] at hsession
        have hwriting : writer.stage.isRunning = true := by rw [hstage]; rfl
        have hrow' := hrow
        rw [hdb] at hrow' ⊢
        rcases written_jobs_cases (state.db.apply writer.pending)
          session.trace id with hsame | hlocked
        · have hstored : (state.db.apply writer.pending).jobs.get? id =
              some row := hsame.symm.trans hrow'
          rw [show sql.apply state.db writer.pending =
            state.db.apply writer.pending from rfl, hstored]
          exact hself _ _ id row
        · have hkept : (state.db.apply writer.pending).jobs.get? id =
              state.db.jobs.get? id := by
            rcases written_jobs_cases state.db writer.trace id with
              hkept | hheld
            · exact hkept
            · have hexclusive := Server.reachable_exclusive hreachable index
                turn session writer heq hsession hwriter _
                (by rwa [Session.locks_of_running rowLocks hrunning]) _
                (by rwa [Session.locks_of_running rowLocks hwriting])
              rw [clash_job] at hexclusive
              cases hexclusive
          have hview := written_jobs_congr session.trace hkept
          rw [show sql.apply state.db writer.pending =
            state.db.apply writer.pending from rfl, hkept]
          exact hstate index session hsession hrunning id row
            (hview.symm.trans hrow')

end ApalisPostgres
