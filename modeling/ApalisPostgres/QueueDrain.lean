/-
A lone worker finishes its queue.  The work left in a queue is counted by the
attempts its rows may still make, a claim and a start each taking a share of
the next one.  Every action of the worker that writes lowers the count, so no
schedule of them goes on for ever; and as long as a row is not terminal, once
its run time has come and the registrations of the stopped workers are stale,
one of the actions is able to write.
-/
import ApalisPostgres.LoneWorker
import Mathlib.Algebra.GroupWithZero.Nat
import Mathlib.Algebra.Order.BigOperators.Group.List
import Mathlib.Algebra.Order.Group.Nat

namespace ApalisPostgres

open RowStore

/-- The share of the next attempt that a claimed row has behind it. -/
def claimProgress : Status → Nat
  | .queued => 1
  | .running => 2
  | _ => 0

/-- The work left in a row: three shares for each attempt it may still make,
of which a claim and a start take one each. -/
def remainingWork (row : JobRow) : Nat :=
  if terminal row then 0
  else 3 * (row.maxAttempts - row.attempts).toNat - claimProgress row.status

/-- What a row adds to the work left in a queue. -/
def queueShare (queue : String) (row : JobRow) : Nat :=
  if row.jobType = queue then remainingWork row else 0

/-- The work left in a queue. -/
def Db.queueWork (db : Db) (queue : String) : Nat :=
  (db.jobs.rows.map (queueShare queue)).sum

section

variable {row next : JobRow}

theorem remainingWork_le (row : JobRow) :
    remainingWork row ≤ 3 * (row.maxAttempts - row.attempts).toNat := by
  unfold remainingWork
  split <;> omega

theorem remainingWork_claimable (h : claimable row = true) :
    remainingWork row = 3 * (row.maxAttempts - row.attempts).toNat ∧
      row.attempts < row.maxAttempts := by
  obtain ⟨hstatus, hlt⟩ := (claimable_iff row).mp h
  refine ⟨?_, hlt⟩
  rcases hstatus with hstatus | hstatus
  · simp [remainingWork, terminal, hstatus, claimProgress]
  · simp [remainingWork, terminal, hstatus, claimProgress]

theorem remainingWork_active (h : row.active = true) :
    remainingWork row = 3 * (row.maxAttempts - row.attempts).toNat -
      claimProgress row.status := by
  rcases row.active_iff.mp h with hstatus | hstatus <;>
    simp [remainingWork, terminal, hstatus]

theorem claimProgress_le (status : Status) : claimProgress status ≤ 2 := by
  cases status <;> decide

theorem remainingWork_claimRow (worker : String) (now : Timestamp)
    (h : claimable row = true) :
    remainingWork (claimRow worker now row) < remainingWork row := by
  obtain ⟨hwork, hlt⟩ := remainingWork_claimable h
  rw [hwork, remainingWork_active rfl]
  simp only [claimRow, claimProgress]
  omega

/-- A start takes the second share. -/
theorem remainingWork_startRow (h : row.active = true)
    (hlt : row.attempts < row.maxAttempts) :
    remainingWork (startRow row) ≤ remainingWork row ∧
      (row.status = .queued →
        remainingWork (startRow row) < remainingWork row) := by
  rw [remainingWork_active h, remainingWork_active rfl]
  simp only [startRow]
  rcases row.active_iff.mp h with hstatus | hstatus
  · simp only [hstatus, claimProgress, true_implies]
    omega
  · simp [hstatus]

theorem remainingWork_leaves (h : row.active = true)
    (hlt : row.attempts < row.maxAttempts)
    (hmax : next.maxAttempts = row.maxAttempts)
    (hattempts : next.attempts = row.attempts + 1) :
    remainingWork next < remainingWork row := by
  have hle := remainingWork_le next
  have hshare := claimProgress_le row.status
  rw [hmax, hattempts] at hle
  rw [remainingWork_active h]
  omega

end

section

variable {queue : String} {rewrite : JobRow → JobRow} {selected : List JobRow}
  {before after : Db}

theorem Rewrote.queueWork_eq (h : Rewrote queue rewrite selected before after) :
    after.queueWork queue = (before.jobs.rows.map fun row => queueShare queue
      (if row.id ∈ selected.map JobRow.id then rewrite row else row)).sum := by
  unfold Db.queueWork
  rw [h.rows, List.map_map]
  rfl

theorem Rewrote.queueShare_eq (h : Rewrote queue rewrite selected before after)
    (hjobType : ∀ row ∈ selected, (rewrite row).jobType = row.jobType)
    {row : JobRow} (hrow : row ∈ selected) :
    queueShare queue (if row.id ∈ selected.map JobRow.id then rewrite row
        else row) = remainingWork (rewrite row) ∧
      queueShare queue row = remainingWork row := by
  have hqueue := h.jobType row hrow
  rw [if_pos (List.mem_map_of_mem hrow)]
  exact ⟨by simp [queueShare, hjobType row hrow, hqueue],
    by simp [queueShare, hqueue]⟩

theorem Rewrote.queueShare_le (h : Rewrote queue rewrite selected before after)
    (hjobType : ∀ row ∈ selected, (rewrite row).jobType = row.jobType)
    (hle : ∀ row ∈ selected, remainingWork (rewrite row) ≤ remainingWork row)
    {row : JobRow} (hrow : row ∈ before.jobs.rows) :
    queueShare queue (if row.id ∈ selected.map JobRow.id then rewrite row
      else row) ≤ queueShare queue row := by
  by_cases hid : row.id ∈ selected.map JobRow.id
  · have hselected := h.mem_selected hrow hid
    obtain ⟨hnext, hold⟩ := h.queueShare_eq hjobType hselected
    rw [hnext, hold]
    exact hle row hselected
  · rw [if_neg hid]

theorem Rewrote.queueWork_le (h : Rewrote queue rewrite selected before after)
    (hjobType : ∀ row ∈ selected, (rewrite row).jobType = row.jobType)
    (hle : ∀ row ∈ selected, remainingWork (rewrite row) ≤ remainingWork row) :
    after.queueWork queue ≤ before.queueWork queue := by
  rw [h.queueWork_eq]
  exact List.sum_le_sum fun row hrow => h.queueShare_le hjobType hle hrow

/-- A rewriting that lowers the work of the rows it takes lowers that of its
queue. -/
theorem Rewrote.queueWork_lt (h : Rewrote queue rewrite selected before after)
    (hjobType : ∀ row ∈ selected, (rewrite row).jobType = row.jobType)
    (hlt : ∀ row ∈ selected, remainingWork (rewrite row) < remainingWork row)
    (hsome : selected ≠ []) :
    1 + after.queueWork queue ≤ before.queueWork queue := by
  obtain ⟨row, hrow⟩ := List.exists_mem_of_ne_nil selected hsome
  rw [h.queueWork_eq, Nat.add_comm]
  apply Nat.succ_le_of_lt
  unfold Db.queueWork
  apply List.sum_lt_sum
  · intro other hother
    exact h.queueShare_le hjobType
      (fun taken htaken => Nat.le_of_lt (hlt taken htaken)) hother
  · obtain ⟨hnext, hold⟩ := h.queueShare_eq hjobType hrow
    refine ⟨row, h.stored hrow, ?_⟩
    rw [hnext, hold]
    exact hlt row hrow

/-- Whether or not it takes a row. -/
theorem Rewrote.queueWork_lowered
    (h : Rewrote queue rewrite selected before after)
    (hjobType : ∀ row ∈ selected, (rewrite row).jobType = row.jobType)
    (hlt : ∀ row ∈ selected,
      remainingWork (rewrite row) < remainingWork row) :
    (decide (0 < selected.length)).toNat + after.queueWork queue ≤
      before.queueWork queue := by
  by_cases hsome : selected = []
  · have hle := h.queueWork_le hjobType
      fun row hrow => Nat.le_of_lt (hlt row hrow)
    simpa [hsome] using hle
  · have hpositive : 0 < selected.length := List.length_pos_iff.mpr hsome
    rw [decide_eq_true hpositive]
    exact h.queueWork_lt hjobType hlt hsome

end

section

variable {rows : TaskConversion} {ids : TaskIds rows} {me : WorkerIdentity}
  {state after : LoneWorker}

theorem length_eq_of_claimedRows {worker : String} {now : Timestamp}
    {selected : List JobRow} {tasks : List Task}
    (h : tasks.map (fun task => task.parts.taskId) =
      (claimedRows worker now selected).map fun row => some row.id) :
    tasks.length = selected.length := by
  have hsame := congrArg List.length h
  simpa [claimedRows] using hsame

/-- Every action that brings the queue forward lowers the work left in it,
and no action raises it. -/
theorem LoneWorker.Holding.work_lowered {turn : WorkerTurn}
    (h : state.Holding rows ids me) (hrenewed : state.renewed me turn = true)
    (hstep : state.step rows me turn = some after) :
    (state.productive rows me turn).toNat +
        after.db.queueWork me.queue ≤
      state.db.queueWork me.queue := by
  have hturned := h.turned hrenewed hstep
  generalize state.productive rows me turn = advanced at hturned
  cases hturned with
  | idle hdb => rw [hdb, Bool.toNat_false, Nat.zero_add]
  | renewed hjobs htokens =>
      rw [Bool.toNat_false, Nat.zero_add]
      unfold Db.queueWork
      rw [hjobs]
  | @fetched system now selected tasks hrewrote hclaimable htasks hstands =>
      rw [length_eq_of_claimedRows htasks]
      exact hrewrote.queueWork_lowered (fun _ _ => rfl)
        fun row hrow => remainingWork_claimRow _ _ (hclaimable row hrow)
  | @started system index held row hheld hrewrote hbefore hstands =>
      obtain ⟨hle, hlt⟩ :=
        remainingWork_startRow hbefore.active hbefore.attempts_lt
      cases hstarted : held.started with
      | true =>
          rw [Bool.not_true, Bool.toNat_false, Nat.zero_add]
          refine hrewrote.queueWork_le (fun _ _ => rfl) ?_
          intro other hother
          rw [List.mem_singleton.mp hother]
          exact hle
      | false =>
          have hqueued : row.status = .queued := by
            rw [hbefore.status, hstarted]
            rfl
          refine hrewrote.queueWork_lt (fun _ _ => rfl) ?_
            (List.cons_ne_nil _ _)
          intro other hother
          rw [List.mem_singleton.mp hother]
          exact hlt hqueued
  | @settled system index held row rewrite hheld hrewrote hbefore hleaves =>
      refine hrewrote.queueWork_lt ?_ ?_ (List.cons_ne_nil _ _)
      · intro other hother
        rw [List.mem_singleton.mp hother]
        exact hleaves.jobType
      · intro other hother
        rw [List.mem_singleton.mp hother]
        exact remainingWork_leaves hbefore.active hbefore.attempts_lt
          hleaves.maxAttempts hleaves.attempts
  | @swept system now selected hrewrote hactive hothers =>
      refine hrewrote.queueWork_lowered (fun _ _ => rfl) ?_
      intro row hrow
      have hlt := (h.reached.budgeted.rows row (hrewrote.stored hrow)).active
        (hactive row hrow)
      refine remainingWork_leaves (hactive row hrow) hlt rfl ?_
      simp only [recoverRow, nextAttempts, charged, Recovery.chargesUnstarted,
        Bool.or_true, if_true, boundedIncrement]
      omega

/-- What a worker left alone may count on at a moment: every run time of its
queue has come, every other registration of the queue is stale for the window
of the sweep, and its own is not. -/
structure LoneWorker.LeftAlone (me : WorkerIdentity) (window : Duration)
    (now : Timestamp) (state : LoneWorker) : Prop where
  due : ∀ row ∈ state.db.jobs.rows, row.jobType = me.queue →
    row.runAt ≤ now
  stale : ∀ other ∈ state.db.workers.rows,
    other.workerType = me.queue → other.id ≠ me.worker →
    staleFor window now other = true
  alive : (state.db.workers.get? (me.worker, me.queue)).any
    (staleFor window now) = false

/-- A pending row has an attempt left. -/
theorem Reachable.pending_budget {admits : System → Op → Prop}
    {system : System} (h : Reachable rows admits system) :
    ∀ row ∈ system.db.jobs.rows, row.status = .pending →
      row.attempts < row.maxAttempts := by
  have hcounts : ∀ row ∈ system.db.jobs.rows, row.status = .pending →
      row.attempts = 0 ∨ row.attempts < row.maxAttempts := by
    refine h.row_invariant (P := fun row => row.status = .pending →
      row.attempts = 0 ∨ row.attempts < row.maxAttempts) ?_
    intro earlier origin view clock now op before row _ hedge hbefore hpending
    cases hedge with
    | enqueue _ => exact Or.inl rfl
    | pollClaim hclaims | notifyClaim hclaims _ | compatibilityClaim hclaims =>
        rw [hclaims.writes] at hpending
        cases hpending
    | start _ _ _ _ _ _ _ _ | lock _ _ _ _ | quarantine _ _ _ _ _ _ _ =>
        cases hpending
    | acknowledge _ _ _ _ _ _ _ _ | undecodable _ _ =>
        simp only at hpending
        repeat' split at hpending
        all_goals cases hpending
    | recovery _ _ _ =>
        simp only at hpending
        split at hpending
        · rename_i hleft
          exact Or.inr hleft
        · cases hpending
  intro row hrow hpending
  have hpositive := (h.budgeted.storable row hrow).maxAttempts_pos
  rcases hcounts row hrow hpending with hzero | hlt
  · omega
  · exact hlt

theorem Reached.pending_budget {db : Db} (h : Reached ids db) :
    ∀ row ∈ db.jobs.rows, row.status = .pending →
      row.attempts < row.maxAttempts := by
  obtain ⟨system, hreachable, rfl⟩ := h
  exact hreachable.pending_budget

/-- An active row has an owner. -/
theorem lockBy_isSome_of_accepted {row : JobRow}
    (h : rowViolation row = none) (hactive : row.active = true) :
    row.lockBy.isSome = true := by
  unfold rowViolation at h
  cases hlockBy : row.lockBy with
  | some _ => rfl
  | none =>
      simp only [hactive, hlockBy, Option.isNone_none, Bool.true_or,
        Bool.and_true, if_true] at h
      repeat' split at h
      all_goals cases h

theorem LoneWorker.Holding.start_productive (h : state.Holding rows ids me)
    {index : Nat} {held : HeldTask} (hheld : state.held[index]? = some held)
    (hstarted : held.started = false) (clock : Nat → Env) :
    state.productive rows me ⟨.start index, clock⟩ = true := by
  obtain ⟨_, claim, _, _, hcall, hexec, _⟩ := h.start_executes hheld clock
  simp [productive, advances, hheld, hstarted, hcall, hexec, affectedRows]

/-- A held task can be acknowledged with any result that serializes to a
document `jsonb` accepts. -/
theorem LoneWorker.Holding.acknowledge_productive
    (h : state.Holding rows ids me) {index : Nat} {held : HeldTask}
    (hheld : state.held[index]? = some held) {res : HandlerResult}
    {result : Option Json} (hresult : buildAckResponse res = .ok result)
    (haccepted : result.toList.all jsonbAccepts = true) (clock : Nat → Env) :
    state.productive rows me ⟨.acknowledge index res, clock⟩ = true := by
  obtain ⟨_, _, _, _, _, hran, _⟩ := h.ack_executes hheld hresult clock
  have hissues : (program rows (.acknowledge (some me.token) res
      held.task.parts)).Issues sql (fun _ stmt => stmt.refusedResult = none)
      (fun _ _ => True) state.db :=
    Program.issues_bind ((acknowledge_accepted hresult haccepted
      (some me.token) held.task.parts).mono fun _ _ _ => trivial)
  have hexec : state.execute rows
      ⟨.acknowledge (some me.token) res held.task.parts, clock⟩ = _ :=
    (LoneWorker.execute_eq hissues rfl).trans hran
  simp [productive, advances, call, hheld, hexec, affectedRows]

/-- A due row nobody else holds is fetched, by a buffer of any size. -/
theorem LoneWorker.Holding.fetch_productive (h : state.Holding rows ids me)
    {env : Env} {row : JobRow} (hrow : row ∈ state.db.jobs.rows)
    (hdue : dueForClaim me.queue env.now row = true)
    (hfree : env.jobLocked row.id = false) (bufferSize : Nat) :
    state.productive rows me ⟨.fetch bufferSize, fun _ => env⟩ = true := by
  obtain ⟨selected, tasks, hselected, htasks, hexec⟩ :=
    h.fetch_executes bufferSize fun _ => env
  have hmem : row ∈ claimSelection env state.db me.queue
      fun _ => true := by
    rw [mem_claimSelection_iff]
    exact ⟨hrow, hdue, rfl, hfree⟩
  have hlength : tasks.length = selected.length :=
    length_eq_of_claimedRows htasks
  have hsome : 0 < selected.length := by
    rw [hselected, List.length_take]
    have hpositive := List.length_pos_of_mem hmem
    simp only [clampI32]
    omega
  simp [productive, advances, call, hexec, affectedRows, hlength, hsome]

/-- A row of a stale worker is swept. -/
theorem LoneWorker.Holding.sweep_productive (h : state.Holding rows ids me)
    {env : Env} (henv : Undisputed env) {window : Duration} {row : JobRow}
    (hrow : row ∈ orphanedRows state.db me.queue window env.now) :
    state.productive rows me ⟨.sweep window, fun _ => env⟩ = true := by
  have hexec := h.sweep_executes window fun _ => env
  have hlength := @length_sweptRows state.db me.queue window
    (fun _ => env) henv henv
  have hpositive := List.length_pos_of_mem hrow
  have hsome : 0 < (sweptRows state.db me.queue window
      fun _ => env).length := by
    rw [hlength, reenqueueOrphanedBatchLimit]
    omega
  simp [productive, advances, call, hexec, affectedRows, hsome]

/-- As long as a row of the queue is not terminal, some action of the worker
brings the queue forward. -/
theorem LoneWorker.Holding.progress (h : state.Holding rows ids me)
    {env : Env} {window : Duration} (henv : Undisputed env)
    (halone : state.LeftAlone me window env.now) {row : JobRow}
    (hrow : row ∈ state.db.jobs.rows) (hqueue : row.jobType = me.queue)
    (hopen : terminal row = false) :
    ∃ action, state.renewed me ⟨action, fun _ => env⟩ = true ∧
      state.productive rows me ⟨action, fun _ => env⟩ = true := by
  have hcases : claimable row = true ∨ row.active = true := by
    have hpending := h.reached.pending_budget row hrow
    cases hstatus : row.status <;>
      simp_all [terminal, claimable, JobRow.active]
  rcases hcases with hclaimable | hactive
  · refine ⟨.fetch 1, rfl, h.fetch_productive hrow ?_ (henv.jobs _) 1⟩
    simp [dueForClaim, hclaimable, halone.due row hrow hqueue, hqueue]
  · obtain ⟨owner, howner⟩ : ∃ owner, row.lockBy = some owner :=
      Option.isSome_iff_exists.mp (lockBy_isSome_of_accepted
        (h.reached.accepted_rows row hrow) hactive)
    by_cases hmine : owner = me.worker
    · subst hmine
      obtain ⟨held, hheld, _⟩ := List.mem_map.mp
        (h.covered row hrow hqueue hactive howner)
      obtain ⟨index, hindex⟩ := List.getElem?_of_mem hheld
      cases hstarted : held.started with
      | false =>
          exact ⟨.start index, rfl, h.start_productive hindex hstarted _⟩
      | true =>
          exact ⟨.acknowledge index (.ok (.ok .null)), rfl,
            h.acknowledge_productive hindex rfl rfl _⟩
    · obtain ⟨found, hfound⟩ := ownerRegistered_iff.mp
        (h.reached.budgeted.owners row hrow) owner howner
      have hkey := Table.key_of_get? hfound
      simp only [WorkerRow.key, Prod.mk.injEq] at hkey
      have hstored := Table.mem_of_get? hfound
      have hstale := halone.stale found hstored (hkey.2.trans hqueue)
        (hkey.1 ▸ hmine)
      refine ⟨.sweep window, ?_, h.sweep_productive henv
        (mem_orphanedRows.mpr ⟨hrow, hqueue, hactive, found,
          hkey.1.symm ▸ howner, hstored, hkey.2.trans hqueue, hstale⟩)⟩
      simp [renewed, halone.alive]

end

/-- A registration leaves every job row as it is. -/
theorem upsertRegistration_unowned {env : Env} {view : Db}
    {worker queue storage layers token : String} {count : Nat}
    {effects : List Effect}
    (h : (Stmt.upsertRegistration worker queue storage layers token).exec env
      view = .ok (count, effects))
    (hview : Unowned view worker queue) :
    Unowned (view.apply effects) worker queue := by
  have hplan := (exec_ok h).1
  simp only [Stmt.plan, Except.ok.injEq, Prod.mk.injEq] at hplan
  obtain ⟨_, rfl⟩ := hplan
  unfold Unowned
  rw [Db.apply_jobs, jobChanges_putWorker]
  exact hview

/-- A registration under a new token is held, and the name owns no active
row: it is new to the queue, or its earlier claims were taken over. -/
theorem registerWorker_unowned (worker queue storage layers token : String)
    (staleAfter : Duration) {view : Db}
    (howners : ∀ row ∈ view.jobs.rows, ownerRegistered view row = true)
    (hfresh : ∀ row, view.workers.get? (worker, queue) = some row →
      row.leaseToken ≠ some token) :
    (registerWorker worker queue storage layers token staleAfter).Issues sql
      (fun _ _ => True)
      (fun _ after => Holds after worker queue (some token) ∧
        Unowned after worker queue) view := by
  have hrow : ∀ view, Unowned view worker queue →
      (registerRow worker queue storage layers token).Issues sql
        (fun _ _ => True) (fun _ after =>
          Holds after worker queue (some token) ∧
            Unowned after worker queue) view := by
    intro view hview
    refine ⟨trivial, ?_⟩
    intro env count changes hexec
    exact ⟨upsertRegistration_holds hexec,
      upsertRegistration_unowned hexec hview⟩
  apply issues_query trivial
  intro env acquired changes hexec
  have hnil : changes = [] := readOnly_exec rfl hexec
  subst hnil
  cases acquired with
  | false => trivial
  | true =>
      apply issues_query trivial
      intro env' existing changes hexec'
      have hnil : changes = [] := readOnly_exec rfl hexec'
      subst hnil
      have hplan := (exec_ok hexec').1
      simp only [Stmt.plan, Except.ok.injEq, Prod.mk.injEq, and_true] at hplan
      change (view.workers.get? (worker, queue)).map _ = existing at hplan
      change (registerOver worker queue storage layers token existing).Issues
        sql _ _ view
      cases hget : view.workers.get? (worker, queue) with
      | none =>
          rw [hget] at hplan
          subst hplan
          apply hrow
          intro row hstored hqueue _ howner
          obtain ⟨owner, hfound⟩ :=
            ownerRegistered_iff.mp (howners row hstored) worker howner
          rw [hqueue, hget] at hfound
          cases hfound
      | some row =>
          rw [hget] at hplan
          subst hplan
          have hlost : row.leaseToken ≠ some token := hfresh row hget
          simp only [Option.map_some, registerOver, ne_eq, hlost,
            not_false_eq_true, decide_true, Bool.true_or, if_true]
          split
          · refine ⟨trivial, ?_⟩
            intro env'' recovered changes hexec''
            exact hrow _ (recoverOwned_unowned (by decide) hexec'')
          · trivial

section

variable {rows : TaskConversion} {ids : TaskIds rows} {system : System}
  {me : WorkerIdentity} {storage layers : String} {staleAfter : Duration}
  {clock : Nat → Env}

/-- A worker that just registered holds nothing and owns nothing. -/
theorem LoneWorker.Holding.of_registered
    (h : Reachable rows ids.Enqueued system)
    (hfresh : ∀ row, system.db.workers.get? (me.worker, me.queue) = some row →
      row.leaseToken ≠ some me.token)
    (hok : (system.execute rows (me.registration storage layers staleAfter
      clock)).outcome = .ok .done) :
    (LoneWorker.registered rows me system storage layers staleAfter
      clock).Holding rows ids me := by
  have hissues := registerWorker_unowned me.worker me.queue storage layers
    me.token staleAfter h.budgeted.owners hfresh
  have hprogram : (program rows (.registerWorker me.worker me.queue storage
      layers me.token staleAfter)).Issues sql (fun _ _ => True)
      (fun _ after => Holds after me.worker me.queue (some me.token) ∧
        Unowned after me.worker me.queue) system.db :=
    Program.issues_bind (hissues.mono fun _ _ hpost => hpost)
  obtain ⟨hholds, hunowned⟩ := hprogram.commits clock hok
  obtain ⟨row, hrow, htoken⟩ := hholds me.token rfl
  refine ⟨⟨_, .step h (me.registration storage layers staleAfter clock) trivial,
    rfl⟩, ?_, by simp [LoneWorker.registered], List.nodup_nil, ?_⟩
  · refine (Option.any_eq_true _ _).mpr ⟨row, hrow, ?_⟩
    simp [tokenAccepted, htoken]
  · intro job hjob hqueue hactive howner
    exact absurd howner (hunowned job hjob hqueue hactive)

/-- A worker that registers under a new token in any reachable state finishes
its queue alone.  However its polls, starts, acknowledgements, releases of
undecodable tasks, sweeps and renewals are ordered and whatever its handlers
return, as long as none of its sweeps finds its own registration stale, the
actions that bring the queue forward are at most the work that was left in it,
three for each attempt its rows may still make; every task the worker holds can
be acknowledged with any result that serializes to a document `jsonb` accepts;
and once the run times have come and the registrations of the others are stale,
some action brings the queue forward until every row of the queue is
terminal. -/
theorem lone_worker_finishes_queue (ids : TaskIds rows)
    (h : Reachable rows ids.Enqueued system)
    (hfresh : ∀ row, system.db.workers.get? (me.worker, me.queue) = some row →
      row.leaseToken ≠ some me.token)
    (hok : (system.execute rows (me.registration storage layers staleAfter
      clock)).outcome = .ok .done)
    {start after : LoneWorker} (hstart : start =
      LoneWorker.registered rows me system storage layers staleAfter clock)
    (turns : List WorkerTurn)
    (hrun : (LoneWorker.machine rows me).runWhere (·.renewed me) start turns =
      some after) :
    (LoneWorker.machine rows me).progressed (·.productive rows me) start
        turns + after.db.queueWork me.queue ≤
      start.db.queueWork me.queue ∧
    (∀ index held res result env, after.held[index]? = some held →
      buildAckResponse res = .ok result →
      result.toList.all jsonbAccepts = true →
      after.productive rows me ⟨.acknowledge index res, env⟩ = true) ∧
    ∀ env window, Undisputed env → after.LeftAlone me window env.now →
      (∀ row ∈ after.db.jobs.rows, row.jobType = me.queue →
        terminal row = true) ∨
      ∃ action, after.renewed me ⟨action, fun _ => env⟩ = true ∧
        after.productive rows me ⟨action, fun _ => env⟩ = true := by
  have hinitial : start.Holding rows ids me := by
    rw [hstart]
    exact .of_registered h hfresh hok
  obtain ⟨hholding, hbound⟩ := Machine.runWhere_progressed
    (LoneWorker.Holding rows ids me)
    (fun state => state.db.queueWork me.queue)
    (fun hstate hrenewed hstep =>
      ⟨hstate.step hrenewed hstep, hstate.work_lowered hrenewed hstep⟩)
    turns hrun hinitial
  refine ⟨hbound, ?_, ?_⟩
  · intro index held res result env hheld hresult haccepted
    exact hholding.acknowledge_productive hheld hresult haccepted env
  · intro env window henv halone
    by_cases hdone : ∀ row ∈ after.db.jobs.rows,
        row.jobType = me.queue → terminal row = true
    · exact Or.inl hdone
    · push Not at hdone
      obtain ⟨row, hrow, hqueue, hopen⟩ := hdone
      exact Or.inr (hholding.progress henv halone hrow hqueue
        (Bool.eq_false_iff.mpr hopen))

/-- A worker stops with a task in its hands.  An hour later another one
sweeps it, fetches it, and acknowledges it after a start. -/
theorem lone_worker_finishes_queue_orphan :
    let late : Nat → Env := fun _ =>
      ⟨3600000000, fun _ => false, fun _ => false, fun _ => true, true⟩
    let me : WorkerIdentity := ⟨"next", "queue", "second"⟩
    let system := [
      (⟨.registerWorker "gone" "queue" storageName "" "first" 30,
        quietEnv⟩ : Invocation),
      ⟨.pushTasksOnConn "queue" [sampleTask], quietEnv⟩,
      ⟨.fetchNext "gone" "queue" 10 (some "first"), quietEnv⟩].foldl
        (System.step TaskConversion.copying) .initial
    let start := LoneWorker.registered .copying me system storageName "" 30
      late
    let machine := LoneWorker.machine .copying me
    let turns : List WorkerTurn := [⟨.sweep 30000000000, late⟩,
      ⟨.fetch 10, late⟩, ⟨.start 0, late⟩, ⟨.renew, late⟩,
      ⟨.acknowledge 0 (.ok (.ok .null)), late⟩]
    start.db.queueWork "queue" = 5 ∧
      machine.progressed (·.productive .copying me) start turns = 4 ∧
      (∃ after, machine.runWhere (·.renewed me) start turns = some after ∧
        4 + after.db.queueWork "queue" ≤ 5) ∧
      (machine.runWhere (·.renewed me) start turns).any (fun after =>
        after.db.jobs.rows.all terminal) = true := by
  intro late me system start machine turns
  let ids : TaskIds .copying := ⟨fun _ => True, fun _ _ => ⟨_, rfl⟩⟩
  have hreachable : Reachable .copying ids.Enqueued system := by
    refine .step (.step (.step .initial _ trivial) _ ?_) _ trivial
    exact fun _ _ => trivial
  have hwork : start.db.queueWork "queue" = 5 := by decide +kernel
  have hprogressed : machine.progressed (·.productive .copying me) start
    turns = 4 := by decide +kernel
  have hsome : (machine.runWhere (·.renewed me) start turns).isSome = true := by
    decide +kernel
  obtain ⟨after, hafter⟩ := Option.isSome_iff_exists.mp hsome
  have hbound := (lone_worker_finishes_queue ids hreachable
    (by decide +kernel) rfl rfl turns hafter).1
  refine ⟨hwork, hprogressed, ⟨after, hafter, ?_⟩, by decide +kernel⟩
  rw [← hprogressed, ← hwork]
  exact hbound

end

end ApalisPostgres
