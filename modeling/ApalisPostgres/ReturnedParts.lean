/-
The parts a claim returned.  They are used long after the claim committed, so
what they still say about the row they name is a property of the whole run:
the budget of a row is fixed for as long as the row lives.
-/
import ApalisPostgres.RowInvariant

namespace ApalisPostgres

open RowStore

/-- Parts a claim of the row's present life returned: the claim committed and
the task was not enqueued again since. -/
def Returned (commits : List Commit) (parts : Parts) : Prop :=
  ∃ earlier commit later tasks task,
    commits = earlier ++ commit :: later ∧
    commit.outcome = .ok (.tasks tasks) ∧ task ∈ tasks ∧
    parts.taskId = task.parts.taskId ∧ parts.ctx = task.parts.ctx ∧
    parts.claim = task.parts.claim ∧
    ∀ next ∈ later, ∀ change ∈ jobChanges next.effects,
      change.tag = .enqueue → parts.taskId ≠ some change.key

/-- The parts carry the budget of the stored row. -/
def CarriesBudget (db : Db) (parts : Parts) : Prop :=
  ∀ row ∈ db.jobs.rows, parts.taskId = some row.id →
    parts.ctx.maxAttempts = row.maxAttempts

/-- The rows of a view inside a transaction: each is the row of the same
budget the transaction started from, unless it was just enqueued. -/
structure Lineage (origin : Db) (op : Op) (view : Db)
    (effects : List Effect) : Prop where
  budgeted : view.Budgeted
  lineage : ∀ row ∈ view.jobs.rows,
    (∃ old ∈ origin.jobs.rows, old.id = row.id ∧
      old.maxAttempts = row.maxAttempts) ∨
    ∃ change ∈ jobChanges effects, change.tag = .enqueue ∧ change.key = row.id
  enqueues : ∀ change ∈ jobChanges effects, change.tag = .enqueue →
    ∃ queue batch, op = .pushTasksOnConn queue batch

theorem Lineage.start {db : Db} {op : Op} (hbudgeted : db.Budgeted) :
    Lineage db op db [] := by
  refine ⟨hbudgeted, ?_, ?_⟩
  · intro row hrow
    exact Or.inl ⟨row, hrow, rfl, rfl⟩
  · intro change hmem
    cases hmem

theorem Lineage.step {origin : Db} {op : Op} {view : Db}
    {effects changes : List Effect} {env : Env} {stmt : Stmt}
    (h : Lineage origin op view effects) (hissued : Issued view op stmt)
    (hexec : Executed env view stmt changes) :
    Lineage origin op (view.apply changes) (effects ++ changes) := by
  refine ⟨hexec.budgeted hissued h.budgeted, ?_, ?_⟩
  · intro row hrow
    rw [jobChanges_append]
    rcases hexec.row_cases hrow with ⟨change, hmem, hafter⟩ | ⟨hold, _⟩
    · have hstep := hexec.jobStep hmem
      have hkey := hstep.reads.key_eq row hafter
      cases hbefore : change.before with
      | none =>
          exact Or.inr ⟨change, List.mem_append_right _ hmem,
            hstep.enqueue_iff.mpr hbefore, hkey.symm⟩
      | some old =>
          obtain ⟨hid, _, hmax, _⟩ := hstep.fixed_columns hbefore hafter
          have hstored : old ∈ view.jobs.rows := Table.mem_of_get?
            (hstep.reads.before_eq.symm.trans hbefore)
          rcases h.lineage old hstored with ⟨first, hfirst, hsame, hbudget⟩ |
            ⟨other, hother, htag, hotherKey⟩
          · exact Or.inl ⟨first, hfirst, hsame.trans hid.symm,
              hbudget.trans hmax.symm⟩
          · exact Or.inr ⟨other, List.mem_append_left _ hother, htag,
              hotherKey.trans hid.symm⟩
    · rcases h.lineage row hold with hfirst | ⟨other, hother, hrest⟩
      · exact Or.inl hfirst
      · exact Or.inr ⟨other, List.mem_append_left _ hother, hrest⟩
  · intro change hmem htag
    rw [jobChanges_append, List.mem_append] at hmem
    rcases hmem with hmem | hmem
    · exact h.enqueues change hmem htag
    · have hstep := hexec.jobStep hmem
      cases hstep with
      | enqueue _ _ =>
          cases hissued with
          | read hread => simp [Stmt.readOnly] at hread
          | insertJobs => exact ⟨_, _, rfl⟩
      | pollClaim _ | notifyClaim _ _ | compatibilityClaim _ | quarantine _
      | lock _ _ _ | undecodable _ _ | start _ _ _ _ | acknowledge _ _
      | recovery _ _ _ _ _ | purge _ _ _ _ => cases htag

/-- A commit that returned parts is the last one, or an earlier one after which
the last one did not enqueue the task again. -/
theorem Returned.cases {commits : List Commit} {last : Commit} {parts : Parts}
    (h : Returned (commits ++ [last]) parts) :
    (∃ tasks task, last.outcome = .ok (.tasks tasks) ∧ task ∈ tasks ∧
      parts.taskId = task.parts.taskId ∧ parts.ctx = task.parts.ctx) ∨
    (Returned commits parts ∧ ∀ change ∈ jobChanges last.effects,
      change.tag = .enqueue → parts.taskId ≠ some change.key) := by
  obtain ⟨earlier, commit, later, tasks, task, heq, houtcome, htask, hid, hctx,
    hclaim, hlater⟩ := h
  rcases List.eq_nil_or_concat later with rfl | ⟨before, final, rfl⟩
  · obtain ⟨_, hlast⟩ := List.append_inj' heq rfl
    cases hlast
    exact Or.inl ⟨tasks, task, houtcome, htask, hid, hctx⟩
  · have hsplit : commits ++ [last] =
        (earlier ++ commit :: before) ++ [final] := by
      simpa using heq
    obtain ⟨hcommits, hlast⟩ := List.append_inj' hsplit rfl
    cases hlast
    refine Or.inr ⟨⟨earlier, commit, before, tasks, task, hcommits, houtcome,
      htask, hid, hctx, hclaim, ?_⟩, hlater last (by simp)⟩
    intro next hnext
    exact hlater next (by simp [hnext])

theorem taskBudget_eq {task : Task} {row : JobRow} (h : task.Claimed row)
    (hrow : row.Storable) : task.parts.ctx.maxAttempts = row.maxAttempts := by
  have hpos := hrow.maxAttempts_pos
  rw [h.copies.maxAttempts]
  omega

variable {rows : TaskConversion}

/-- Returned parts carry the budget of the row they name, in every run. -/
theorem Reachable.returned_budget {admits : System → Op → Prop}
    {system : System} (h : Reachable rows admits system) :
    ∀ parts, Returned system.commits parts → CarriesBudget system.db parts := by
  induction h with
  | initial =>
      intro parts _ row hrow
      cases hrow
  | @step system hsystem invocation _ ih =>
      intro parts hreturned row hrow hid
      obtain ⟨hrows, houtcome⟩ := System.execute_ensures rows system invocation
        (P := Lineage system.db invocation.op) (.start hsystem.budgeted)
        fun _ _ _ _ _ hissued hview hexec => hview.step hissued hexec
      rw [System.step_commits] at hreturned
      rcases hreturned.cases with ⟨tasks, task, hlast, htask, htaskId, hctx⟩ |
        ⟨hearlier, hfresh⟩
      · -- the claim that just committed returned a row of this very database
        dsimp only at hlast
        rw [hlast] at houtcome
        obtain ⟨claimed, hclaimed, hcopied⟩ := houtcome.1 task htask
        have hsame : claimed.id = row.id := by
          have hcopy := hcopied.copies.taskId
          rw [← htaskId, hid] at hcopy
          exact (Option.some.inj hcopy).symm
        have heq := Db.row_unique hclaimed hrow hsame
        subst heq
        rw [hctx]
        exact taskBudget_eq hcopied (hrows.budgeted.storable _ hrow)
      · rcases hrows.lineage row hrow with ⟨old, hold, hsame, hmax⟩ |
          ⟨change, hmem, htag, hkey⟩
        · rw [← hmax]
          exact ih parts hearlier old hold (by rw [hid, hsame])
        · exact absurd (by rw [hid, hkey]) (hfresh change hmem htag)

end ApalisPostgres
