/-
The rows a dispatch waits for are rows of the database.  The start, the lock
and the acknowledgement change the owned rows of a name exactly as their SQL
statements change `apalis.jobs`.
-/
import ApalisPostgres.DispatchInvariant
import ApalisPostgres.RowInvariant

namespace ApalisPostgres

open RowStore DispatchSystem

/-- A claimed row as the dispatches of its owner know it. -/
def JobRow.ownedRow (row : JobRow) : OwnedRow :=
  ⟨(row.lockAt.map unixSeconds).getD 0, row.attempts.toNat,
    row.status = .running⟩

/-- The rows that are active under the worker while its registration carries
the token. -/
def Db.ownedRows (db : Db) (worker token taskId : String) : Option OwnedRow :=
  (db.jobs.get? taskId).bind fun row =>
    if row.active && row.lockBy = some worker &&
        (db.workers.get? (worker, row.jobType)).any
          (tokenAccepted (some token)) then
      some row.ownedRow
    else none

def Db.queueOf (db : Db) (taskId : String) : String :=
  ((db.jobs.get? taskId).map JobRow.jobType).getD ""

theorem JobRow.WellFormed.lockAt_eq {row : JobRow} (h : row.WellFormed)
    (hactive : row.active = true) :
    row.lockAt = some (toTimestamp row.ownedRow.lockAt) := by
  obtain ⟨_, ⟨seconds, hlockAt⟩, _⟩ := h.owned hactive
  simp [JobRow.ownedRow, hlockAt, unixSeconds_toTimestamp]

theorem toTimestamp_inj {left right : Int} :
    toTimestamp left = toTimestamp right ↔ left = right := by
  constructor
  · intro h
    have hmicros : left * 1000000 = right * 1000000 := h
    omega
  · rintro rfl
    rfl

theorem JobRow.Budgeted.attempts_eq {row : JobRow} (h : row.Budgeted) :
    row.attempts = (row.ownedRow.attempts : Int) :=
  (Int.toNat_of_nonneg h.attempts_nonneg).symm

/-- The guard of the start statement reads nothing but the owned row. -/
theorem startable_eq {claim : StartClaim} {row : JobRow} (h : row.WellFormed)
    (hactive : row.active = true) (howner : row.lockBy = some claim.workerId)
    (hid : row.id = claim.taskId) :
    startable claim row =
      (row.ownedRow.starts claim && decide (claim.queue = row.jobType)) := by
  have hlockAt := h.lockAt_eq hactive
  have hattempts := h.toBudgeted.attempts_eq
  have hstatus : (row.status = .queued ∨
        (claim.restart = true ∧ row.status = .running)) ↔
      (row.ownedRow.running = false ∨ claim.restart = true) := by
    cases hrow : row.status with
    | queued => simp [JobRow.ownedRow, hrow]
    | running => simp [JobRow.ownedRow, hrow]
    | _ => simp [JobRow.active, hrow] at hactive
  rw [Bool.eq_iff_iff, startable_iff]
  simp only [OwnedRow.starts, Bool.and_eq_true, Bool.or_eq_true,
    Bool.not_eq_true', decide_eq_true_eq, Option.isNone_iff_eq_none]
  constructor
  · intro hmatch
    have hsame := hlockAt.symm.trans hmatch.lockAt
    rw [Option.some.injEq, toTimestamp_inj] at hsame
    refine ⟨⟨⟨hsame, ?_⟩, hstatus.mp hmatch.status⟩, hmatch.jobType.symm⟩
    rw [← hattempts]
    exact hmatch.attempts
  · rintro ⟨⟨⟨hsame, hcount⟩, hstarted⟩, hqueue⟩
    rw [← hattempts] at hcount
    rw [hsame] at hlockAt
    exact ⟨hid, hqueue.symm, howner, hlockAt, hcount, hstatus.mpr hstarted⟩

/-- The guard of the acknowledgement reads nothing but the owned row. -/
theorem acknowledgeable_eq {update : AckTaskUpdate} {row : JobRow}
    (h : row.WellFormed) (hactive : row.active = true)
    (howner : row.lockBy = some update.workerId)
    (hid : row.id = update.taskId) :
    acknowledgeable update row =
      (row.ownedRow.acknowledgedBy update &&
        decide (update.queue = row.jobType)) := by
  have hlockAt := h.lockAt_eq hactive
  have hattempts := h.toBudgeted.attempts_eq
  rw [Bool.eq_iff_iff, acknowledgeable_iff]
  simp only [OwnedRow.acknowledgedBy, Bool.and_eq_true, decide_eq_true_eq]
  constructor
  · rintro ⟨hqueue, _, _, _, hsince, hcount⟩
    have hsame := hlockAt.symm.trans hsince
    rw [Option.some.injEq, toTimestamp_inj] at hsame
    exact ⟨⟨hsame, hattempts.symm.trans hcount⟩, hqueue.symm⟩
  · rintro ⟨⟨hsame, hcount⟩, hqueue⟩
    rw [hsame] at hlockAt
    exact ⟨hqueue.symm, hid, hactive, howner, hlockAt, hattempts.trans hcount⟩

section

variable {env : Env} {db : Db} {effects : List Effect} {matched : Nat}
  {worker token : String} {system : DispatchSystem}

/-- The owned row of a task, with its job row. -/
theorem Db.ownedRows_eq_some {taskId : String} {owned : OwnedRow} :
    db.ownedRows worker token taskId = some owned ↔
      ∃ row, db.jobs.get? taskId = some row ∧ row.active = true ∧
        row.lockBy = some worker ∧
        (db.workers.get? (worker, row.jobType)).any
          (tokenAccepted (some token)) = true ∧
        row.ownedRow = owned := by
  unfold Db.ownedRows
  rw [Option.bind_eq_some_iff]
  constructor
  · rintro ⟨row, hget, howned⟩
    split at howned
    · rename_i hcurrent
      simp only [Bool.and_eq_true, decide_eq_true_eq] at hcurrent
      cases howned
      exact ⟨row, hget, hcurrent.1.1, hcurrent.1.2, hcurrent.2, rfl⟩
    · cases howned
  · rintro ⟨row, hget, hactive, howner, hcurrent, rfl⟩
    exact ⟨row, hget, by simp [hactive, howner, hcurrent]⟩

/-- A statement that rewrites at most the row of one task. -/
structure RewritesTask (db after : Db) (taskId : String)
    (keep : JobRow → Bool) (rewrite : JobRow → JobRow) : Prop where
  workers : after.workers = db.workers
  jobs : ∀ id, after.jobs.get? id =
    (db.jobs.get? id).map fun row => if keep row then rewrite row else row
  task : ∀ row, keep row = true → row.id = taskId

theorem RewritesTask.of_exec {stmt : Stmt} {result : stmt.Result}
    {edge : JobEdge} {rewrite : JobRow → JobRow} {keep : JobRow → Bool}
    (taskId : String) (hexec : stmt.exec env db = .ok (result, effects))
    (heffects : effects = updateJobs edge rewrite (db.jobs.rows.filter keep))
    (htask : ∀ row, keep row = true → row.id = taskId) :
    RewritesTask db (db.apply effects) taskId keep rewrite := by
  refine ⟨Db.apply_workers_eq ?_, get?_updated hexec heffects, htask⟩
  intro change hmem
  rw [heffects] at hmem
  obtain ⟨_, _, heq⟩ := mem_updateJobs hmem
  cases heq

section

variable {after : Db} {taskId : String} {keep : JobRow → Bool}
  {rewrite : JobRow → JobRow}

variable (worker token) in
/-- Either the row of the task is rewritten, or no row is. -/
theorem RewritesTask.cases (h : RewritesTask db after taskId keep rewrite) :
    (∃ row, db.jobs.get? taskId = some row ∧ keep row = true ∧
      after.jobs.get? taskId = some (rewrite row) ∧
      (db.jobs.rows.filter keep).length ≠ 0 ∧
      ∀ other, other ≠ taskId → after.ownedRows worker token other =
        db.ownedRows worker token other) ∨
    ((∀ row, db.jobs.get? taskId = some row → keep row = false) ∧
      (db.jobs.rows.filter keep).length = 0 ∧
      after.ownedRows worker token = db.ownedRows worker token) := by
  have hsame : ∀ id, (∀ row, db.jobs.get? id = some row → keep row = false) →
      after.ownedRows worker token id = db.ownedRows worker token id := by
    intro id hunkept
    have hget : after.jobs.get? id = db.jobs.get? id := by
      rw [h.jobs id]
      cases hrow : db.jobs.get? id with
      | none => rfl
      | some row => simp [hunkept row hrow]
    unfold Db.ownedRows
    rw [hget, h.workers]
  have hother : ∀ id, id ≠ taskId → ∀ row, db.jobs.get? id = some row →
      keep row = false := by
    intro id hid row hget
    by_contra hkept
    have htask := h.task row (by simpa using hkept)
    exact hid ((Table.key_of_get? hget).symm.trans htask)
  by_cases hkept : ∃ row, db.jobs.get? taskId = some row ∧ keep row = true
  · left
    obtain ⟨row, hget, hkeep⟩ := hkept
    refine ⟨row, hget, hkeep, ?_, ?_, fun id hid => hsame id (hother id hid)⟩
    · rw [h.jobs taskId, hget]
      simp [hkeep]
    · rw [Ne, List.length_eq_zero_iff]
      exact List.ne_nil_of_mem
        (List.mem_filter.mpr ⟨Table.mem_of_get? hget, hkeep⟩)
  · right
    have hnone : ∀ row, db.jobs.get? taskId = some row → keep row = false := by
      intro row hget
      by_contra hkeep
      exact hkept ⟨row, hget, by simpa using hkeep⟩
    refine ⟨hnone, ?_, ?_⟩
    · rw [List.length_eq_zero_iff, List.filter_eq_nil_iff]
      intro row hrow hkeep
      have hget := Table.get?_of_mem hrow
      exact hkept ⟨row, (h.task row hkeep) ▸ hget, hkeep⟩
    · funext id
      by_cases hid : id = taskId
      · exact hsame id (hid ▸ hnone)
      · exact hsame id (hother id hid)

end

theorem Db.queueOf_eq {taskId : String} {row : JobRow}
    (h : db.jobs.get? taskId = some row) : db.queueOf taskId = row.jobType := by
  simp [Db.queueOf, h]

/-- `start_task` on the database is the start on the owned rows. -/
theorem startTask_refines {claim : StartClaim}
    (hdb : ∀ row ∈ db.jobs.rows, row.WellFormed)
    (hworker : claim.workerId = worker) (htoken : claim.leaseToken = some token)
    (hexec : (Stmt.startTask claim).exec env db = .ok (matched, effects))
    (hrows : system.rows = db.ownedRows worker token) :
    (system.runStart db.queueOf claim .answered).1.rows =
        (db.apply effects).ownedRows worker token ∧
      ((system.runStart db.queueOf claim .answered).2.1 = .matched ↔
        matched ≠ 0) := by
  have hplan := (exec_ok hexec).1
  simp only [Stmt.plan, Except.ok.injEq, Prod.mk.injEq] at hplan
  obtain ⟨rfl, heffects⟩ := hplan
  have hrewrites := RewritesTask.of_exec claim.taskId hexec heffects.symm (by
    intro row hkeep
    simp only [Bool.and_eq_true] at hkeep
    exact (startable_iff.mp hkeep.2).id)
  unfold runStart
  rw [hrows]
  rcases hrewrites.cases worker token with
    ⟨row, hget, hkeep, hafter, hcount, hothers⟩ | ⟨hnone, hcount, hsame⟩
  · simp only [Bool.and_eq_true, hworker, htoken] at hkeep
    obtain ⟨hcurrent, hstartable⟩ := hkeep
    have hmatch := startable_iff.mp hstartable
    have howner : row.lockBy = some worker := hworker ▸ hmatch.lockBy
    have hguard := startable_eq (hdb row (Table.mem_of_get? hget)) hmatch.active
      hmatch.lockBy hmatch.id
    rw [hstartable, ← Db.queueOf_eq hget] at hguard
    have howned : db.ownedRows worker token claim.taskId = some row.ownedRow :=
      Db.ownedRows_eq_some.mpr ⟨row, hget, hmatch.active, howner,
        hmatch.jobType ▸ hcurrent, rfl⟩
    simp only [howned, ← hguard, Bool.true_and, ne_eq, reduceCtorEq,
      not_false_eq_true, decide_true, if_true, not_true_eq_false, if_false,
      true_iff]
    refine ⟨?_, hcount⟩
    funext id
    by_cases hid : id = claim.taskId
    · subst hid
      rw [setRow_self]
      refine (Db.ownedRows_eq_some.mpr ⟨startRow row, hafter, rfl, howner, ?_,
        rfl⟩).symm
      rw [hrewrites.workers]
      exact hmatch.jobType ▸ hcurrent
    · rw [setRow_other _ hid, hothers id hid, hrows]
  · rw [hsame]
    cases howned : db.ownedRows worker token claim.taskId with
    | none => exact ⟨hrows, by simp [hcount]⟩
    | some owned =>
        obtain ⟨row, hget, hactive, howner, hcurrent, rfl⟩ :=
          Db.ownedRows_eq_some.mp howned
        have hid := Table.key_of_get? hget
        have hguard := startable_eq (hdb row (Table.mem_of_get? hget)) hactive
          (hworker ▸ howner) hid
        rw [← Db.queueOf_eq hget] at hguard
        have hunmatched : startable claim row = false := by
          have hunkept := hnone row hget
          simp only [hworker, htoken, Bool.and_eq_false_iff] at hunkept
          rcases hunkept with hlost | hunstarted
          · by_contra hstartable
            have hmatch := startable_iff.mp (by simpa using hstartable)
            rw [hmatch.jobType] at hcurrent
            simp [hcurrent] at hlost
          · exact hunstarted
        rw [hunmatched] at hguard
        simp only [← hguard, Bool.false_and, ne_eq, not_true_eq_false,
          Bool.false_eq_true, if_false]
        exact ⟨hrows, by simp [hcount]⟩

/-- `ack_task`, once the registration was found current, is the
acknowledgement on the owned rows. -/
theorem ackTask_refines {update : AckTaskUpdate} {res : HandlerResult}
    {parts : Parts} (hdb : ∀ row ∈ db.jobs.rows, row.WellFormed)
    (hworker : update.workerId = worker)
    (hupdate : update.Acknowledges (some token) res parts)
    (hcurrent : (db.workers.get? (worker, update.queue)).any
      (tokenAccepted (some token)) = true)
    (hexec : (Stmt.ackTask update).exec env db = .ok (matched, effects))
    (hrows : system.rows = db.ownedRows worker token) :
    (system.runAck db.queueOf update .answered).1.rows =
        (db.apply effects).ownedRows worker token ∧
      ((system.runAck db.queueOf update .answered).2 = .acknowledged ↔
        matched ≠ 0) := by
  have hplan := (exec_ok hexec).1
  simp only [Stmt.plan, Except.ok.injEq, Prod.mk.injEq] at hplan
  obtain ⟨rfl, heffects⟩ := hplan
  have hrewrites := RewritesTask.of_exec update.taskId hexec heffects.symm
    (fun row hkeep => (acknowledgeable_iff.mp hkeep).2.1)
  unfold runAck
  rw [hrows]
  rcases hrewrites.cases worker token with
    ⟨row, hget, hkeep, hafter, hcount, hothers⟩ | ⟨hnone, hcount, hsame⟩
  · obtain ⟨hqueue, hid, hactive, howner, _⟩ := acknowledgeable_iff.mp hkeep
    have hguard := acknowledgeable_eq (hdb row (Table.mem_of_get? hget)) hactive
      howner hid
    rw [hkeep, ← Db.queueOf_eq hget] at hguard
    have howned : db.ownedRows worker token update.taskId = some row.ownedRow :=
      Db.ownedRows_eq_some.mpr ⟨row, hget, hactive, hworker ▸ howner,
        hqueue ▸ hcurrent, rfl⟩
    simp only [howned, ← hguard, Bool.true_and, ne_eq, reduceCtorEq,
      not_false_eq_true, decide_true, if_true, true_iff]
    refine ⟨?_, hcount⟩
    funext id
    by_cases hsame : id = update.taskId
    · subst hsame
      rw [setRow_self]
      have hended : (ackRow env.now update row).active = false :=
        ackRow_active hupdate
      simp [Db.ownedRows, hafter, hended]
    · rw [setRow_other _ hsame, hothers id hsame, hrows]
  · rw [hsame]
    cases howned : db.ownedRows worker token update.taskId with
    | none => exact ⟨hrows, by simp [hcount]⟩
    | some owned =>
        obtain ⟨row, hget, hactive, howner, _, rfl⟩ :=
          Db.ownedRows_eq_some.mp howned
        have hguard := acknowledgeable_eq (hdb row (Table.mem_of_get? hget))
          hactive (hworker ▸ howner) (Table.key_of_get? hget)
        rw [hnone row hget, ← Db.queueOf_eq hget] at hguard
        simp only [← hguard, Bool.false_and, Bool.false_eq_true, if_false]
        exact ⟨hrows, by simp [hcount]⟩

/-- The row of a lock, as the dispatches of its owner know it. -/
theorem lockRow_ownedRow {row : JobRow} {now : Timestamp}
    (h : row.WellFormed) (howned : row.active = true →
      row.lockBy = some worker) :
    (lockRow worker now row).ownedRow =
      { (if row.active then row.ownedRow
          else ⟨unixSeconds (truncSecond now), row.attempts.toNat, false⟩) with
        running := true } := by
  by_cases hactive : row.active = true
  · obtain ⟨_, ⟨seconds, hlockAt⟩, _⟩ := h.owned hactive
    simp [JobRow.ownedRow, lockRow, hactive, howned hactive, hlockAt]
  · simp [JobRow.ownedRow, lockRow, hactive]

/-- `lock_task`, once the registration was found current, takes the row the
dispatch then holds. -/
theorem lockTask_refines {taskId : String} {queue : Option String}
    {locked : List JobRow} (hdb : ∀ row ∈ db.jobs.rows, row.WellFormed)
    (hcurrent : (db.workers.get? (worker, db.queueOf taskId)).any
      (tokenAccepted (some token)) = true)
    (hexec : (Stmt.lockTask worker taskId queue).exec env db =
      .ok (locked, effects))
    (hrows : system.rows = db.ownedRows worker token) :
    (∀ row ∈ locked, row.id = taskId ∧ ∃ fresh,
      row.ownedRow = system.lockedRow taskId fresh ∧
      (system.setRow taskId (some (system.lockedRow taskId fresh))).rows =
        (db.apply effects).ownedRows worker token) ∧
    (locked = [] → (db.apply effects).ownedRows worker token =
      db.ownedRows worker token) := by
  have hplan := (exec_ok hexec).1
  simp only [Stmt.plan, Except.ok.injEq, Prod.mk.injEq] at hplan
  obtain ⟨rfl, heffects⟩ := hplan
  have hrewrites := RewritesTask.of_exec taskId hexec heffects.symm (by
    intro row hkeep
    simp only [Bool.and_eq_true, decide_eq_true_eq] at hkeep
    exact hkeep.1.1)
  rcases hrewrites.cases worker token with
    ⟨row, hget, hkeep, hafter, hcount, hothers⟩ | ⟨hnone, hcount, hsame⟩
  · refine ⟨?_, ?_⟩
    · intro result hresult
      obtain ⟨source, hsource, rfl⟩ := List.mem_map.mp hresult
      obtain ⟨hstored, hkept⟩ := List.mem_filter.mp hsource
      have hid : source.id = taskId := hrewrites.task source hkept
      have hsource : source = row := Db.row_unique hstored
        (Table.mem_of_get? hget) (hid.trans (Table.key_of_get? hget).symm)
      subst hsource
      have howner : source.active = true → source.lockBy = some worker := by
        intro hactive
        simp only [Bool.and_eq_true, lockable] at hkept
        cases hstatus : source.status <;>
          simp_all [JobRow.active]
      rw [Db.queueOf_eq hget] at hcurrent
      have hbefore : db.ownedRows worker token taskId =
          if source.active then some source.ownedRow else none := by
        by_cases hactive : source.active = true
        · simp [Db.ownedRows, hget, hactive, howner hactive, hcurrent]
        · simp [Db.ownedRows, hget, hactive]
      have hlocked : (lockRow worker env.now source).ownedRow =
          system.lockedRow taskId ⟨unixSeconds (truncSecond env.now),
            source.attempts.toNat, false⟩ := by
        rw [lockRow_ownedRow (hdb source hstored) howner, lockedRow, hrows,
          hbefore]
        by_cases hactive : source.active = true
        · simp [hactive]
        · simp [hactive]
      refine ⟨hid, _, hlocked, ?_⟩
      funext id
      by_cases hsame : id = taskId
      · subst hsame
        rw [setRow_self]
        refine (Db.ownedRows_eq_some.mpr ⟨_, hafter, rfl, rfl, ?_, hlocked⟩).symm
        rw [hrewrites.workers]
        exact hcurrent
      · rw [setRow_other _ hsame, hothers id hsame, hrows]
    · intro hnil
      rw [List.map_eq_nil_iff] at hnil
      exact absurd (List.length_eq_zero_iff.mpr hnil) hcount
  · rw [List.length_eq_zero_iff] at hcount
    refine ⟨?_, fun _ => hsame⟩
    simp [hcount]

end

end ApalisPostgres
