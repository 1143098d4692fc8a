/-
The worker that is left when every other one of its queue has stopped.  It
polls, starts and settles what it was given, sweeps and renews, in any order
and with any results.  What it holds is what its claims are in the table: a
task it was given stays startable and acknowledgeable until it is settled,
and it owns no row that it does not hold.
-/
import ApalisPostgres.UndisturbedClaims
import ApalisPostgres.SweepProgress
import ApalisPostgres.ClaimPaths
import ApalisPostgres.BatchClaims
import ApalisPostgres.PoisonText
import ApalisPostgres.EventMachine

namespace ApalisPostgres

open RowStore

/-- Under what a worker stream claims: its name, its queue and the token of
its storage. -/
structure WorkerIdentity where
  worker : String
  queue : String
  token : String
deriving Repr, DecidableEq

/-- The registration a worker stream begins with. -/
def WorkerIdentity.registration (me : WorkerIdentity) (storage layers : String)
    (staleAfter : Duration) (clock : Nat → Env) : Invocation :=
  ⟨.registerWorker me.worker me.queue storage layers me.token staleAfter,
    clock⟩

/-- A task the worker was given, and whether its claim was started. -/
structure HeldTask where
  task : Task
  started : Bool
deriving Repr, DecidableEq

def HeldTask.taskId (held : HeldTask) : Option String := held.task.parts.taskId

/-- The database, and the tasks the worker was given and has not settled. -/
structure LoneWorker where
  db : Db
  held : List HeldTask

/-- What a worker does: it fetches, it starts a task it holds, it settles one
with the result of its handler or as undecodable, and its heartbeat sweeps and
renews. -/
inductive WorkerAction where
  | fetch (bufferSize : Nat)
  | start (index : Nat)
  | acknowledge (index : Nat) (res : HandlerResult)
  | failUndecodable (index : Nat) (error : String)
  | sweep (reenqueueOrphanedAfter : Duration)
  | renew

/-- One action, and what its statements observe. -/
structure WorkerTurn where
  action : WorkerAction
  env : Nat → Env

/-- How many rows a call reports to have written or returned. -/
def affectedRows : Except Error Outcome → Nat
  | .ok .done => 1
  | .ok (.count affected) => affected
  | .ok (.started matched) => matched.toNat
  | .ok (.tasks claimed) => claimed.length
  | .ok (.rows claimed) => claimed.length
  | .error _ => 0

namespace LoneWorker

variable (rows : TaskConversion) (me : WorkerIdentity)

/-- The operation of an action; an action on a task that is not held is
none. -/
def call (state : LoneWorker) : WorkerAction → Option Op
  | .fetch bufferSize =>
      some (.fetchNext me.worker me.queue bufferSize (some me.token))
  | .start index => do
      let held ← state.held[index]?
      let claim ← (startClaim (some me.token) me.worker held.started
        held.task.parts).toOption
      return .startTask claim
  | .acknowledge index res => do
      let held ← state.held[index]?
      return .acknowledge (some me.token) res held.task.parts
  | .failUndecodable index error => do
      let held ← state.held[index]?
      let taskId ← held.task.parts.taskId
      let lockAt ← held.task.parts.ctx.lockAt
      return .failUndecodableTask taskId me.worker lockAt
        held.task.parts.attempt error (some me.token)
  | .sweep reenqueueOrphanedAfter =>
      some (.reenqueueOrphaned me.queue reenqueueOrphanedAfter)
  | .renew => some (.keepAlive me.worker me.queue me.token)

/-- The tasks the worker holds after an action: what a fetch returned is
added, a start that matched is recorded, what was settled is dropped. -/
def holding (state : LoneWorker) (outcome : Except Error Outcome) :
    WorkerAction → List HeldTask
  | .fetch _ => state.held ++
      ((returnedTasks outcome).getD []).map fun task => ⟨task, false⟩
  | .start index =>
      if affectedRows outcome = 0 then state.held
      else state.held.modify index fun held => { held with started := true }
  | .acknowledge index _ | .failUndecodable index _ =>
      if affectedRows outcome = 0 then state.held
      else state.held.eraseIdx index
  | .sweep _ | .renew => state.held

/-- One call of the worker, on a server that checks the documents it is
given. -/
def execute (state : LoneWorker) (invocation : Invocation) :
    BodyEnd Db Effect Error Outcome :=
  (program rows invocation.op).execute jsonbSql invocation.env state.db

def step (state : LoneWorker) (turn : WorkerTurn) : Option LoneWorker :=
  (state.call me turn.action).map fun op =>
    let stop := state.execute rows ⟨op, turn.env⟩
    ⟨stop.view, state.holding stop.outcome turn.action⟩

/-- Whether an action can bring the queue forward at all: a renewal does not,
and neither does a second start. -/
def advances (state : LoneWorker) : WorkerAction → Bool
  | .start index => state.held[index]?.any fun held => !held.started
  | .renew => false
  | _ => true

/-- Whether a turn brought the queue forward. -/
def productive (state : LoneWorker) (turn : WorkerTurn) : Bool :=
  state.advances turn.action && (state.call me turn.action).any fun op =>
    decide (0 < affectedRows
      (state.execute rows ⟨op, turn.env⟩).outcome)

/-- A worker that renews in time is not stale for its own sweeps. -/
def renewed (state : LoneWorker) (turn : WorkerTurn) : Bool :=
  match turn.action with
  | .sweep reenqueueOrphanedAfter =>
      !((state.db.workers.get? (me.worker, me.queue)).any
        (staleFor reenqueueOrphanedAfter (turn.env 0).now))
  | _ => true

/-- The worker from its registration on. -/
def registered (system : System) (storage layers : String)
    (staleAfter : Duration) (clock : Nat → Env) : LoneWorker :=
  ⟨(system.step rows (me.registration storage layers staleAfter clock)).db,
    []⟩

def machine : Machine LoneWorker WorkerTurn where
  Initial state := state.held = []
  step := step rows me

end LoneWorker

/-- Rows of a queue were rewritten in place; nothing else changed. -/
structure Rewrote (queue : String) (rewrite : JobRow → JobRow)
    (selected : List JobRow) (before after : Db) : Prop where
  selects : selected.Subperm before.jobs.rows
  jobType : ∀ row ∈ selected, row.jobType = queue
  rows : after.jobs.rows = before.jobs.rows.map fun row =>
    if row.id ∈ selected.map JobRow.id then rewrite row else row
  workers : after.workers = before.workers

section

variable {queue : String} {rewrite : JobRow → JobRow} {selected : List JobRow}
  {before after : Db} {row : JobRow}

/-- An UPDATE of a selection rewrites it in place. -/
theorem Rewrote.of_update (edge : JobEdge)
    (hid : ∀ row : JobRow, (rewrite row).id = row.id)
    (hsub : selected.Subperm before.jobs.rows)
    (hqueue : ∀ row ∈ selected, row.jobType = queue) :
    Rewrote queue rewrite selected before
      (before.apply (updateJobs edge rewrite selected)) where
  selects := hsub
  jobType := hqueue
  rows := by
    rw [Db.apply_jobs, jobChanges_updateJobs]
    exact before.jobs.rows_applyChanges_update hid
      (fun _ hrow => hsub.subset hrow)
      (before.jobs.keys_nodup_of_subperm hsub)
  workers := by
    rw [Db.apply_workers, workerChanges_updateJobs]
    rfl

theorem Rewrote.stored (h : Rewrote queue rewrite selected before after)
    (hrow : row ∈ selected) : row ∈ before.jobs.rows :=
  h.selects.subset hrow

theorem Rewrote.mem_selected (h : Rewrote queue rewrite selected before after)
    (hrow : row ∈ before.jobs.rows) (hid : row.id ∈ selected.map JobRow.id) :
    row ∈ selected := by
  obtain ⟨other, hother, hsame⟩ := List.mem_map.mp hid
  rw [← Db.row_unique (h.stored hother) hrow hsame]
  exact hother

/-- Every row there is was rewritten or was there before. -/
theorem Rewrote.mem_cases (h : Rewrote queue rewrite selected before after)
    (hrow : row ∈ after.jobs.rows) :
    (∃ old ∈ selected, row = rewrite old) ∨
      (row ∈ before.jobs.rows ∧ row.id ∉ selected.map JobRow.id) := by
  rw [h.rows] at hrow
  obtain ⟨old, hold, rfl⟩ := List.mem_map.mp hrow
  by_cases hid : old.id ∈ selected.map JobRow.id
  · rw [if_pos hid]
    exact Or.inl ⟨old, h.mem_selected hold hid, rfl⟩
  · rw [if_neg hid]
    exact Or.inr ⟨hold, hid⟩

theorem Rewrote.mem_rewritten (h : Rewrote queue rewrite selected before after)
    (hrow : row ∈ selected) : rewrite row ∈ after.jobs.rows := by
  rw [h.rows]
  refine List.mem_map.mpr ⟨row, h.stored hrow, ?_⟩
  rw [if_pos (List.mem_map_of_mem hrow)]

theorem Rewrote.mem_kept (h : Rewrote queue rewrite selected before after)
    (hrow : row ∈ before.jobs.rows) (hid : row.id ∉ selected.map JobRow.id) :
    row ∈ after.jobs.rows := by
  rw [h.rows]
  refine List.mem_map.mpr ⟨row, hrow, ?_⟩
  rw [if_neg hid]

theorem Rewrote.standing {worker : String} {token : Option String}
    {started : Bool} {task : Task}
    (h : Rewrote queue rewrite selected before after)
    (hstands : StandingClaim before worker token started task row)
    (hid : row.id ∉ selected.map JobRow.id) :
    StandingClaim after worker token started task row := by
  apply hstands.undisturbed
  · rw [hstands.get?]
    exact Table.get?_of_mem (h.mem_kept hstands.stored hid)
  · rw [h.workers]

end

/-- The database of a reachable state. -/
def Reached {rows : TaskConversion} (ids : TaskIds rows) (db : Db) : Prop :=
  ∃ system, Reachable rows ids.Enqueued system ∧ system.db = db

section

variable {rows : TaskConversion} {ids : TaskIds rows} {db : Db}

theorem Reached.budgeted (h : Reached ids db) : db.Budgeted := by
  obtain ⟨system, hreachable, rfl⟩ := h
  exact hreachable.budgeted

theorem Reached.claimed_converts (h : Reached ids db) {worker : String}
    {now : Timestamp} {selected : List JobRow}
    (hselected : ∀ row ∈ selected, row ∈ db.jobs.rows) :
    ∀ row ∈ claimedRows worker now selected,
      ∃ task, rows.tryIntoTaskCompact row = .ok task := by
  obtain ⟨system, hreachable, rfl⟩ := h
  exact hreachable.claimed_converts hselected

theorem Reached.accepted_rows (h : Reached ids db) : db.Accepted := by
  obtain ⟨system, hreachable, rfl⟩ := h
  exact hreachable.accepted_rows

/-- A call runs as on a server without checks, or it fails and leaves
nothing. -/
theorem LoneWorker.execute_cases (state : LoneWorker)
    (invocation : Invocation) {system : System} (hdb : system.db = state.db) :
    state.execute rows invocation = system.execute rows invocation ∨
      ∃ error, state.execute rows invocation =
        ⟨state.db, [], .error error⟩ := by
  rw [System.execute, hdb]
  exact Program.execute_guarded_cases Stmt.refusedResult
    (program rows invocation.op) invocation.env state.db

theorem LoneWorker.reached_execute {state : LoneWorker}
    (h : Reached ids state.db) (invocation : Invocation)
    (hadmits : ∀ system, ids.Enqueued system invocation.op) :
    Reached ids (state.execute rows invocation).view := by
  obtain ⟨system, hreachable, hdb⟩ := h
  rcases state.execute_cases invocation hdb with hsame | ⟨error, herror⟩
  · rw [hsame]
    exact ⟨_, .step hreachable invocation (hadmits system), rfl⟩
  · rw [herror]
    exact ⟨system, hreachable, hdb⟩

/-- A call that binds no refused document runs as on a server without
checks. -/
theorem LoneWorker.execute_eq {state : LoneWorker} {invocation : Invocation}
    (h : (program rows invocation.op).Issues sql
      (fun _ stmt => stmt.refusedResult = none) (fun _ _ => True) state.db)
    {system : System} (hdb : system.db = state.db) :
    state.execute rows invocation = system.execute rows invocation := by
  rw [System.execute, hdb]
  exact Program.execute_guarded h invocation.env

end

/-- The claims of the worker are what it holds: each held task stands for its
row, no row is held twice, and the worker owns no row it does not hold. -/
structure LoneWorker.Holding (rows : TaskConversion) (ids : TaskIds rows)
    (me : WorkerIdentity) (state : LoneWorker) : Prop where
  reached : Reached ids state.db
  registered : (state.db.workers.get? (me.worker, me.queue)).any
    (tokenAccepted (some me.token)) = true
  stands : ∀ held ∈ state.held, ∃ row, row.jobType = me.queue ∧
    StandingClaim state.db me.worker (some me.token) held.started
      held.task row
  distinct : (state.held.map HeldTask.taskId).Nodup
  covered : ∀ row ∈ state.db.jobs.rows, row.jobType = me.queue →
    row.active = true → row.lockBy = some me.worker →
    some row.id ∈ state.held.map HeldTask.taskId

/-- Every registration keeps its token. -/
def KeepsTokens (before after : WorkerTable) : Prop :=
  ∀ key, (after.get? key).map WorkerRow.leaseToken =
    (before.get? key).map WorkerRow.leaseToken

theorem KeepsTokens.find {before after : WorkerTable}
    (h : KeepsTokens before after) {key : String × String} {row : WorkerRow}
    (hget : before.get? key = some row) :
    ∃ found, after.get? key = some found ∧
      found.leaseToken = row.leaseToken := by
  have hsame := h key
  rw [hget, Option.map_some] at hsame
  exact Option.map_eq_some_iff.mp hsame

/-- A claim does not depend on when its registration was renewed. -/
theorem KeepsTokens.standing {before after : Db} {worker : String}
    {token : Option String} {started : Bool} {task : Task} {row : JobRow}
    (h : KeepsTokens before.workers after.workers)
    (hjobs : after.jobs = before.jobs)
    (hstands : StandingClaim before worker token started task row) :
    StandingClaim after worker token started task row where
  stored := hjobs ▸ hstands.stored
  claimed := hstands.claimed
  status := hstands.status
  lockBy := hstands.lockBy
  current := by
    intro presented htoken
    obtain ⟨owner, howner, hlease⟩ := hstands.current presented htoken
    obtain ⟨found, hfound, hsame⟩ := h.find howner
    exact ⟨found, hfound, hsame.trans hlease⟩
  budgeted := hstands.budgeted
  storable := hstands.storable
  wholeSecond := hstands.wholeSecond
  registered := by
    obtain ⟨owner, howner⟩ := hstands.registered
    obtain ⟨found, hfound, _⟩ := h.find howner
    exact ⟨found, hfound⟩

/-- The row leaves its claim with one more attempt counted. -/
structure SpendsAttempt (row next : JobRow) : Prop where
  id : next.id = row.id
  jobType : next.jobType = row.jobType
  maxAttempts : next.maxAttempts = row.maxAttempts
  attempts : next.attempts = row.attempts + 1
  inactive : next.active = false

/-- What a turn of the worker comes to, and whether it brought the queue
forward. -/
inductive LoneWorker.Turned (rows : TaskConversion) (me : WorkerIdentity)
    (state : LoneWorker) : Bool → LoneWorker → Prop where
  /-- refused: nothing was written -/
  | idle {db : Db} (hdb : db = state.db) :
      Turned rows me state false ⟨db, state.held⟩
  | renewed {db : Db} (hjobs : db.jobs = state.db.jobs)
      (htokens : KeepsTokens state.db.workers db.workers) :
      Turned rows me state false ⟨db, state.held⟩
  | fetched {db : Db} {now : Timestamp} {selected : List JobRow}
      {tasks : List Task}
      (hrewrote : Rewrote me.queue (claimRow me.worker now) selected
        state.db db)
      (hclaimable : ∀ row ∈ selected, claimable row = true)
      (htasks : tasks.map (fun task => task.parts.taskId) =
        (claimedRows me.worker now selected).map fun row => some row.id)
      (hstands : ∀ task ∈ tasks, ∃ row, StandingClaim db me.worker
        (some me.token) false task row) :
      Turned rows me state (decide (0 < tasks.length))
        ⟨db, state.held ++ tasks.map fun task => ⟨task, false⟩⟩
  | started {db : Db} {index : Nat} {held : HeldTask} {row : JobRow}
      (hheld : state.held[index]? = some held)
      (hrewrote : Rewrote me.queue startRow [row] state.db db)
      (hbefore : StandingClaim state.db me.worker (some me.token)
        held.started held.task row)
      (hstands : StandingClaim db me.worker (some me.token) true
        held.task (startRow row)) :
      Turned rows me state (!held.started) ⟨db, state.held.modify index
        fun held => { held with started := true }⟩
  | settled {db : Db} {index : Nat} {held : HeldTask} {row : JobRow}
      {rewrite : JobRow → JobRow} (hheld : state.held[index]? = some held)
      (hrewrote : Rewrote me.queue rewrite [row] state.db db)
      (hbefore : StandingClaim state.db me.worker (some me.token)
        held.started held.task row)
      (hleaves : SpendsAttempt row (rewrite row)) :
      Turned rows me state true ⟨db, state.held.eraseIdx index⟩
  | swept {db : Db} {now : Timestamp} {selected : List JobRow}
      (hrewrote : Rewrote me.queue (recoverRow now .staleSweep) selected
        state.db db)
      (hactive : ∀ row ∈ selected, row.active = true)
      (hothers : ∀ row ∈ selected, row.lockBy ≠ some me.worker) :
      Turned rows me state (decide (0 < selected.length))
        ⟨db, state.held⟩

section

variable {rows : TaskConversion} {ids : TaskIds rows} {me : WorkerIdentity}
  {state after : LoneWorker}

/-- Rows that convert are returned as tasks, each under its id. -/
theorem claimedTasks_ids {claimed : List JobRow}
    (h : ∀ row ∈ claimed, ∃ task, rows.tryIntoTaskCompact row = .ok task) :
    ∃ tasks, claimedTasks rows claimed = .commit tasks ∧
      tasks.map (fun task => task.parts.taskId) =
        claimed.map fun row => some row.id := by
  induction claimed with
  | nil => exact ⟨[], rfl, rfl⟩
  | cons row rest ih =>
      obtain ⟨task, htask⟩ := h row List.mem_cons_self
      obtain ⟨tasks, hrest, hids⟩ := ih fun other hother =>
        h other (List.mem_cons_of_mem _ hother)
      refine ⟨{ task with parts := recordClaim task.parts } :: tasks, ?_, ?_⟩
      · simp only [claimedTasks, htask, hrest]
        rfl
      · rw [List.map_cons, List.map_cons, hids]
        congr 1
        exact (rows.copies htask).taskId

theorem LoneWorker.Holding.fetch_accepted (h : state.Holding rows ids me)
    (bufferSize : Nat) :
    (program rows (.fetchNext me.worker me.queue bufferSize
      (some me.token))).Issues sql (fun _ stmt => stmt.refusedResult = none)
      (fun _ _ => True) state.db :=
  Program.issues_bind ((fetchNext_accepted h.reached.claimed_converts).mono
    fun _ _ _ => trivial)

/-- A poll of a registered worker commits, whatever it may take. -/
theorem LoneWorker.Holding.fetch_executes
    (h : state.Holding rows ids me) (bufferSize : Nat) (clock : Nat → Env) :
    ∃ selected tasks, selected = (claimSelection (clock 1) state.db
          me.queue fun _ => true).take (clampI32 (max bufferSize 1)) ∧
      tasks.map (fun task => task.parts.taskId) =
        (claimedRows me.worker (clock 1).now selected).map
          (fun row => some row.id) ∧
      state.execute rows
          ⟨.fetchNext me.worker me.queue bufferSize (some me.token), clock⟩ =
        ⟨state.db.apply (updateJobs .pollClaim
            (claimRow me.worker (clock 1).now) selected),
          updateJobs .pollClaim (claimRow me.worker (clock 1).now) selected,
          .ok (.tasks tasks)⟩ := by
  let selected := (claimSelection (clock 1) state.db me.queue
    fun _ => true).take (clampI32 (max bufferSize 1))
  have hselected : ∀ row ∈ selected,
      DueRow state.db (clock 1) me.queue row :=
    fun row hrow => (mem_claimSelection (List.mem_of_mem_take hrow)).1
  have hplan : (Stmt.fetchNext me.worker me.queue
      (clampI32 (max bufferSize 1))).plan (clock 1) state.db =
        .ok (claimedRows me.worker (clock 1).now selected,
          updateJobs .pollClaim (claimRow me.worker (clock 1).now) selected) :=
    rfl
  have hexec := exec_claim h.reached.budgeted h.registered hselected hplan
  obtain ⟨tasks, hcommit, hids⟩ := claimedTasks_ids
    (h.reached.claimed_converts fun row hrow => (hselected row hrow).stored)
  have hran : System.execute rows ⟨state.db, []⟩ ⟨.fetchNext me.worker
      me.queue bufferSize (some me.token), clock⟩ = _ :=
    Program.execute_map (runBody_claim h.registered hexec hcommit)
  exact ⟨selected, tasks, rfl, hids,
    (LoneWorker.execute_eq (h.fetch_accepted bufferSize) rfl).trans hran⟩

/-- What the worker fetched it holds. -/
theorem LoneWorker.Holding.turned_fetch (h : state.Holding rows ids me)
    (bufferSize : Nat) (clock : Nat → Env)
    (hstep : state.step rows me ⟨.fetch bufferSize, clock⟩ = some after) :
    Turned rows me state
      (state.productive rows me ⟨.fetch bufferSize, clock⟩) after := by
  obtain ⟨selected, tasks, hselected, htasks, hexec⟩ :=
    h.fetch_executes bufferSize clock
  cases hstep
  simp only [productive, advances, call, Option.any_some, Bool.true_and,
    holding, hexec, affectedRows, returnedTasks, Option.getD_some]
  have hsub : selected.Subperm state.db.jobs.rows := by
    rw [hselected]
    exact (List.take_sublist _ _).subperm.trans (claimSelection_subperm _ _ _ _)
  have hdue : ∀ row ∈ selected,
      DueRow state.db (clock 1) me.queue row := by
    intro row hrow
    rw [hselected] at hrow
    exact (mem_claimSelection (List.mem_of_mem_take hrow)).1
  refine .fetched ?_ (fun row hrow => (hdue row hrow).claimable) htasks ?_
  · exact .of_update .pollClaim (fun _ => rfl) hsub
      fun row hrow => (hdue row hrow).jobType
  · intro task htask
    obtain ⟨system, hreachable, hdb⟩ := h.reached
    have hsame : state.execute rows ⟨.fetchNext me.worker me.queue bufferSize
        (some me.token), clock⟩ = system.execute rows _ :=
      LoneWorker.execute_eq (h.fetch_accepted bufferSize) hdb
    have hran := hsame.symm.trans hexec
    have hnext : Reachable rows ids.Enqueued (system.step rows
        ⟨.fetchNext me.worker me.queue bufferSize (some me.token), clock⟩) :=
      .step hreachable _ trivial
    obtain ⟨row, hstands⟩ :=
      ClaimUse.stands_of_claim hnext rfl (by rw [hran]) htask
    refine ⟨row, ?_⟩
    rwa [System.step_db, hran] at hstands

/-- The start of a held task is issued, and it matches its row. -/
theorem LoneWorker.Holding.start_executes (h : state.Holding rows ids me)
    {index : Nat} {held : HeldTask} (hheld : state.held[index]? = some held)
    (clock : Nat → Env) :
    ∃ row claim, row.jobType = me.queue ∧
      StandingClaim state.db me.worker (some me.token) held.started
        held.task row ∧
      state.call me (.start index) = some (.startTask claim) ∧
      state.execute rows ⟨.startTask claim, clock⟩ =
        ⟨state.db.apply (updateJobs .start startRow [row]),
          updateJobs .start startRow [row], .ok (.started true)⟩ ∧
      StandingClaim (state.db.apply (updateJobs .start startRow [row]))
        me.worker (some me.token) true held.task (startRow row) := by
  obtain ⟨row, hqueue, hstands⟩ := h.stands held (List.mem_of_getElem? hheld)
  obtain ⟨claim, hclaim, hmatch, htoken⟩ :=
    hstands.claim_ok held.task.parts.attempt
  have hissued : startClaim (some me.token) me.worker held.started
    held.task.parts = .ok claim := hclaim
  have hissues : (program rows (.startTask claim)).Issues sql
      (fun _ stmt => stmt.refusedResult = none) (fun _ _ => True) state.db :=
    ⟨rfl, fun _ _ _ _ => trivial⟩
  have hran : System.execute rows ⟨state.db, []⟩ ⟨.startTask claim, clock⟩ =
      _ := hstands.start_executes clock hmatch htoken
  refine ⟨row, claim, hqueue, hstands, ?_,
    (LoneWorker.execute_eq hissues rfl).trans hran,
    hstands.after_start (clock 0) hmatch htoken⟩
  simp [call, hheld, hissued, Except.toOption]

/-- A held task is started under its claim, also when it was started
before. -/
theorem LoneWorker.Holding.turned_start (h : state.Holding rows ids me)
    (index : Nat) (clock : Nat → Env)
    (hstep : state.step rows me ⟨.start index, clock⟩ = some after) :
    Turned rows me state (state.productive rows me ⟨.start index, clock⟩)
      after := by
  cases hheld : state.held[index]? with
  | none => simp [step, call, hheld] at hstep
  | some held =>
      obtain ⟨row, claim, hqueue, hstands, hcall, hexec, hstarted⟩ :=
        h.start_executes hheld clock
      simp only [step, hcall, Option.map_some, Option.some.injEq] at hstep
      subst hstep
      simp only [productive, advances, hcall, hheld, Option.any_some, holding,
        hexec, affectedRows, Bool.toNat_true, Nat.one_ne_zero, if_false,
        Nat.zero_lt_one, decide_true, Bool.and_true]
      refine .started hheld ?_ hstands ?_
      · refine .of_update .start (fun _ => rfl)
          (List.singleton_sublist.mpr hstands.stored).subperm ?_
        intro other hother
        rw [List.mem_singleton.mp hother]
        exact hqueue
      · exact hstarted

/-- A held task is settled by one update of its row. -/
theorem LoneWorker.turned_settled {held : HeldTask} {row : JobRow}
    {edge : JobEdge} {rewrite : JobRow → JobRow}
    (hheld : state.held[index]? = some held) (hqueue : row.jobType = me.queue)
    (hstands : StandingClaim state.db me.worker (some me.token)
      held.started held.task row)
    (hid : ∀ row : JobRow, (rewrite row).id = row.id)
    (hleaves : SpendsAttempt row (rewrite row)) :
    Turned rows me state true
      ⟨state.db.apply (updateJobs edge rewrite [row]),
        state.held.eraseIdx index⟩ := by
  refine .settled hheld ?_ hstands hleaves
  refine .of_update edge hid
    (List.singleton_sublist.mpr hstands.stored).subperm ?_
  intro other hother
  rw [List.mem_singleton.mp hother]
  exact hqueue

/-- Without checks the acknowledgement of a held task matches its row,
whatever result that serializes it carries. -/
theorem LoneWorker.Holding.ack_executes (h : state.Holding rows ids me)
    {index : Nat} {held : HeldTask} (hheld : state.held[index]? = some held)
    {res : HandlerResult} {result : Option Json}
    (hresult : buildAckResponse res = .ok result) (clock : Nat → Env) :
    ∃ row update now, row.jobType = me.queue ∧
      StandingClaim state.db me.worker (some me.token) held.started
        held.task row ∧
      System.execute rows ⟨state.db, []⟩
          ⟨.acknowledge (some me.token) res held.task.parts, clock⟩ =
        ⟨state.db.apply (updateJobs .acknowledge (ackRow now update) [row]),
          updateJobs .acknowledge (ackRow now update) [row], .ok .done⟩ ∧
      SpendsAttempt row (ackRow now update row) := by
  obtain ⟨row, hqueue, hstands⟩ := h.stands held (List.mem_of_getElem? hheld)
  obtain ⟨update, hupdate, hmatch, _, hattempts⟩ :=
    hstands.update_ok held.task.parts.attempt hresult
  obtain ⟨now, hexec⟩ : ∃ now, System.execute rows ⟨state.db, []⟩
      ⟨.acknowledge (some me.token) res held.task.parts, clock⟩ = _ :=
    hstands.ack_executes clock hupdate hmatch hattempts
  exact ⟨row, update, now, hqueue, hstands, hexec, rfl, rfl, rfl, hattempts,
    ackRow_active (ackUpdate_ok hupdate)⟩

/-- An acknowledgement settles the task, unless its result does not
serialize or its document is refused. -/
theorem LoneWorker.Holding.turned_acknowledge (h : state.Holding rows ids me)
    (index : Nat) (res : HandlerResult) (clock : Nat → Env)
    (hstep : state.step rows me ⟨.acknowledge index res, clock⟩ =
      some after) :
    Turned rows me state
      (state.productive rows me ⟨.acknowledge index res, clock⟩) after := by
  cases hheld : state.held[index]? with
  | none => simp [step, call, hheld] at hstep
  | some held =>
      simp only [step, call, hheld, bind, Option.bind_some, pure,
        Option.map_some, Option.some.injEq] at hstep
      subst hstep
      simp only [productive, advances, call, hheld, bind, Option.bind_some,
        pure, Option.any_some, Bool.true_and, holding]
      rcases @LoneWorker.execute_cases rows state
          ⟨.acknowledge (some me.token) res held.task.parts, clock⟩
          ⟨state.db, []⟩ rfl with hsame | ⟨error, herror⟩
      · rw [hsame]
        cases hupdate : ackUpdate (some me.token) res held.task.parts with
        | error error =>
            have hexec : System.execute rows ⟨state.db, []⟩
                ⟨.acknowledge (some me.token) res held.task.parts, clock⟩ =
                  ⟨state.db, [], .error error⟩ := by
              simp only [System.execute, program, acknowledge, hupdate]
              rfl
            simp only [hexec, affectedRows, if_true, Nat.lt_irrefl,
              decide_false]
            exact .idle rfl
        | ok update =>
            obtain ⟨row, issued, now, hqueue, hstands, hexec, hleaves⟩ :=
              h.ack_executes hheld (ackUpdate_ok hupdate).result clock
            simp only [hexec, affectedRows, Nat.one_ne_zero, if_false,
              Nat.zero_lt_one, decide_true]
            exact turned_settled hheld hqueue hstands (fun _ => rfl) hleaves
      · simp only [herror, affectedRows, if_true, Nat.lt_irrefl, decide_false]
        exact .idle rfl

/-- A task that does not decode is settled without being run, unless the text
of its error is refused. -/
theorem LoneWorker.Holding.turned_failUndecodable
    (h : state.Holding rows ids me) (index : Nat) (error : String)
    (clock : Nat → Env)
    (hstep : state.step rows me ⟨.failUndecodable index error, clock⟩ =
      some after) :
    Turned rows me state
      (state.productive rows me ⟨.failUndecodable index error, clock⟩)
      after := by
  cases hheld : state.held[index]? with
  | none => simp [step, call, hheld] at hstep
  | some held =>
      obtain ⟨row, hqueue, hstands⟩ :=
        h.stands held (List.mem_of_getElem? hheld)
      obtain ⟨seconds, hlockAt, hparts, hcount, _⟩ := hstands.epoch
      have htaskId := hstands.claimed.copies.taskId
      have hlt := hstands.attempts_lt
      simp only [step, call, hheld, htaskId, hparts, bind, Option.bind_some,
        pure, Option.map_some, Option.some.injEq] at hstep
      subst hstep
      obtain ⟨now, hexec⟩ : ∃ now, System.execute rows ⟨state.db, []⟩
          ⟨.failUndecodableTask row.id me.worker seconds row.attempts error
            (some me.token), clock⟩ = _ :=
        hstands.release_executes clock error hlockAt
      rw [← hcount] at hexec
      simp only [productive, advances, call, hheld, htaskId, hparts, bind,
        Option.bind_some, pure, Option.any_some, Bool.true_and, holding]
      rcases @LoneWorker.execute_cases rows state
          ⟨.failUndecodableTask row.id me.worker seconds
            held.task.parts.attempt error (some me.token), clock⟩
          ⟨state.db, []⟩ rfl with hsame | ⟨fault, hrefused⟩
      · rw [hsame, hexec]
        simp only [affectedRows, Nat.one_ne_zero, if_false, Nat.zero_lt_one,
          decide_true]
        refine turned_settled hheld hqueue hstands (fun _ => rfl)
          ⟨rfl, rfl, rfl, ?_, undecodableRow_active _ _ _⟩
        simp only [undecodableRow, boundedIncrement]
        omega
      · simp only [hrefused, affectedRows, if_true, Nat.lt_irrefl,
          decide_false]
        exact .idle rfl

theorem LoneWorker.Holding.sweep_executes (h : state.Holding rows ids me)
    (window : Duration) (clock : Nat → Env) :
    state.execute rows ⟨.reenqueueOrphaned me.queue window, clock⟩ =
      ⟨state.db.apply (updateJobs (.recovery .staleSweep)
          (recoverRow (clock 1).now .staleSweep)
          (sweptRows state.db me.queue window clock)),
        updateJobs (.recovery .staleSweep)
          (recoverRow (clock 1).now .staleSweep)
          (sweptRows state.db me.queue window clock),
        .ok (.count (sweptRows state.db me.queue window clock).length)⟩ := by
  have hrecovers (workers : List String) (view : Db) :
      (recoverOwned me.queue workers .staleSweep).Issues sql
        (fun _ stmt => stmt.refusedResult = none) (fun _ _ => True) view := by
    unfold recoverOwned
    split
    · trivial
    · exact ⟨rfl, fun _ _ _ _ => trivial⟩
  have hissues : (program rows (.reenqueueOrphaned me.queue window)).Issues sql
      (fun _ stmt => stmt.refusedResult = none) (fun _ _ => True) state.db :=
    Program.issues_bind (issues_query rfl fun _ workers _ _ =>
      (hrecovers workers _).mono fun _ _ _ => trivial)
  have hran : System.execute rows ⟨state.db, []⟩
      ⟨.reenqueueOrphaned me.queue window, clock⟩ = _ :=
    ApalisPostgres.sweep_executes h.reached.accepted_rows
  exact (LoneWorker.execute_eq hissues rfl).trans hran

/-- A sweep takes rows of others alone from a worker that renewed in time. -/
theorem LoneWorker.Holding.turned_sweep (h : state.Holding rows ids me)
    (window : Duration) (clock : Nat → Env)
    (hrenewed : state.renewed me ⟨.sweep window, clock⟩ = true)
    (hstep : state.step rows me ⟨.sweep window, clock⟩ = some after) :
    Turned rows me state (state.productive rows me ⟨.sweep window, clock⟩)
      after := by
  have hexec := h.sweep_executes window clock
  cases hstep
  simp only [productive, advances, call, Option.any_some, Bool.true_and,
    holding, hexec, affectedRows]
  have hrewrote : Rewrote me.queue (recoverRow (clock 1).now .staleSweep)
      (sweptRows state.db me.queue window clock) state.db
      (state.execute rows
        ⟨.reenqueueOrphaned me.queue window, clock⟩).view := by
    rw [hexec]
    exact .of_update (.recovery .staleSweep) (fun _ => rfl)
      (recoverySelection_subperm _ _ _ _ _)
      fun row hrow => (mem_recoverySelection hrow).2.1
  rw [hexec] at hrewrote
  refine .swept hrewrote
    (fun row hrow => (mem_recoverySelection hrow).2.2.1) ?_
  · intro row hrow howner
    obtain ⟨_, _, _, worker, hworker, hlockBy⟩ := mem_recoverySelection hrow
    cases hlockBy.symm.trans howner
    obtain ⟨own, hown, hname⟩ := List.mem_map.mp hworker
    have hlocked := List.mem_of_mem_take hown
    rw [List.mem_insertionSort, List.mem_filter] at hlocked
    simp only [Bool.and_eq_true, decide_eq_true_eq] at hlocked
    obtain ⟨hstored, ⟨⟨htype, hstale⟩, _⟩, _⟩ := hlocked
    have hget := Table.get?_of_mem hstored
    rw [WorkerRow.key, hname, htype] at hget
    simp [renewed, hget, staleFor, hstale] at hrenewed

/-- A renewal keeps the token and touches no claim. -/
theorem LoneWorker.Holding.turned_renew (h : state.Holding rows ids me)
    (clock : Nat → Env)
    (hstep : state.step rows me ⟨.renew, clock⟩ = some after) :
    Turned rows me state (state.productive rows me ⟨.renew, clock⟩)
      after := by
  obtain ⟨own, hown, haccepted⟩ := (Option.any_eq_true _ _).mp h.registered
  have htoken : own.leaseToken = some me.token := by
    simpa [tokenAccepted] using haccepted
  let effects := putWorker .heartbeat (some own)
    (renewedRow (clock 0).now own)
  have hplan : (Stmt.keepAlive me.worker me.queue me.token).plan (clock 0)
      state.db = .ok (1, effects) := by
    simp [Stmt.plan, hown, htoken, effects]
  have hstatement : sql.exec (.keepAlive me.worker me.queue me.token) (clock 0)
      state.db = .ok (1, effects) := by
    change Stmt.exec _ _ _ = _
    simp [Stmt.exec, hplan, effects, putWorker, effectViolation, bind,
      Except.bind, pure, Except.pure]
  have hran : System.execute rows ⟨state.db, []⟩
      ⟨.keepAlive me.worker me.queue me.token, clock⟩ =
        ⟨state.db.apply effects, effects, .ok .done⟩ :=
    Program.execute_of_runBody (Program.runBody_statement hstatement)
  have hissues : (program rows (.keepAlive me.worker me.queue
      me.token)).Issues sql (fun _ stmt => stmt.refusedResult = none)
      (fun _ _ => True) state.db := by
    refine Program.issues_bind (issues_query rfl ?_)
    intro env count changes _
    split <;> trivial
  have hexec : state.execute rows
      ⟨.keepAlive me.worker me.queue me.token, clock⟩ = _ :=
    (LoneWorker.execute_eq hissues rfl).trans hran
  cases hstep
  simp only [productive, advances, Bool.false_and, holding]
  have hname : own.key = (me.worker, me.queue) := Table.key_of_get? hown
  have hkey : (renewedRow (clock 0).now own).key = (me.worker, me.queue) :=
    hname
  refine .renewed ?_ ?_
  · rw [hexec, Db.apply_jobs]
    rfl
  · intro key
    rw [hexec, Db.apply_workers]
    change ((state.db.workers.put
      (renewedRow (clock 0).now own)).get? key).map _ = _
    rw [Table.get?_put, hkey]
    split
    · rename_i heq
      rw [← heq, hown]
      rfl
    · rfl

/-- Every turn of the worker, in the terms of its claims. -/
theorem LoneWorker.Holding.turned {turn : WorkerTurn}
    (h : state.Holding rows ids me) (hrenewed : state.renewed me turn = true)
    (hstep : state.step rows me turn = some after) :
    Turned rows me state (state.productive rows me turn) after := by
  obtain ⟨action, clock⟩ := turn
  cases action with
  | fetch bufferSize => exact h.turned_fetch bufferSize clock hstep
  | start index => exact h.turned_start index clock hstep
  | acknowledge index res => exact h.turned_acknowledge index res clock hstep
  | failUndecodable index error =>
      exact h.turned_failUndecodable index error clock hstep
  | sweep window => exact h.turned_sweep window clock hrenewed hstep
  | renew => exact h.turned_renew clock hstep

/-- The operations of the worker enqueue nothing. -/
theorem LoneWorker.Holding.step_reached {turn : WorkerTurn}
    (h : state.Holding rows ids me)
    (hstep : state.step rows me turn = some after) : Reached ids after.db := by
  obtain ⟨op, hcall, rfl⟩ := Option.map_eq_some_iff.mp hstep
  refine LoneWorker.reached_execute h.reached ⟨op, turn.env⟩ ?_
  intro system
  change ids.Enqueued system op
  obtain ⟨action, clock⟩ := turn
  cases action with
  | fetch bufferSize | sweep window | renew =>
      cases hcall
      trivial
  | start index =>
      simp only [call, bind, Option.bind_eq_some_iff, pure,
        Option.some.injEq] at hcall
      obtain ⟨held, _, claim, _, rfl⟩ := hcall
      trivial
  | acknowledge index res =>
      simp only [call, bind, Option.bind_eq_some_iff, pure,
        Option.some.injEq] at hcall
      obtain ⟨held, _, rfl⟩ := hcall
      trivial
  | failUndecodable index error =>
      simp only [call, bind, Option.bind_eq_some_iff, pure,
        Option.some.injEq] at hcall
      obtain ⟨held, _, taskId, _, lockAt, _, rfl⟩ := hcall
      trivial

/-- Two entries of the held tasks are of different rows. -/
theorem LoneWorker.Holding.other_row (h : state.Holding rows ids me)
    {first second : Nat} {held other : HeldTask} {id : String}
    (hfirst : state.held[first]? = some held)
    (hsecond : state.held[second]? = some other) (hne : second ≠ first)
    (hid : held.taskId = some id) : other.taskId ≠ some id := by
  intro hsame
  apply hne
  refine (List.getElem?_inj ?_ h.distinct).mp ?_
  · obtain ⟨hlt, _⟩ := List.getElem?_eq_some_iff.mp hsecond
    simpa using hlt
  · rw [List.getElem?_map, List.getElem?_map, hfirst, hsecond,
      Option.map_some, Option.map_some, hid, hsame]

/-- A held task of another row is untouched by the update of one row. -/
theorem LoneWorker.Holding.stands_beside (h : state.Holding rows ids me)
    {rewrite : JobRow → JobRow} {db : Db} {first second : Nat}
    {held other : HeldTask} {row : JobRow}
    (hrewrote : Rewrote me.queue rewrite [row] state.db db)
    (hfirst : state.held[first]? = some held)
    (hsecond : state.held[second]? = some other) (hne : second ≠ first)
    (hid : held.taskId = some row.id) :
    ∃ row, row.jobType = me.queue ∧ StandingClaim db me.worker
      (some me.token) other.started other.task row := by
  obtain ⟨found, hqueue, hstands⟩ :=
    h.stands other (List.mem_of_getElem? hsecond)
  refine ⟨found, hqueue, hrewrote.standing hstands ?_⟩
  intro hmem
  apply h.other_row hfirst hsecond hne hid
  rw [List.map_singleton, List.mem_singleton] at hmem
  exact hmem ▸ hstands.claimed.copies.taskId

section

variable {db : Db}

/-- What is claimable is not held. -/
theorem Rewrote.not_claimable {now : Timestamp} {selected : List JobRow}
    (hrewrote : Rewrote me.queue (claimRow me.worker now) selected
      state.db db)
    (hclaimable : ∀ row ∈ selected, claimable row = true)
    {held : HeldTask} {row : JobRow}
    (hstands : StandingClaim state.db me.worker (some me.token)
      held.started held.task row) : row.id ∉ selected.map JobRow.id := by
  intro hmem
  have hrow := hrewrote.mem_selected hstands.stored hmem
  have hactive := hstands.active
  rcases ((claimable_iff row).mp (hclaimable row hrow)).1 with
    hstatus | hstatus <;> simp [JobRow.active, hstatus] at hactive

theorem LoneWorker.Holding.after_fetched (h : state.Holding rows ids me)
    {now : Timestamp} {selected : List JobRow} {tasks : List Task}
    (hreached : Reached ids db)
    (hrewrote : Rewrote me.queue (claimRow me.worker now) selected
      state.db db)
    (hclaimable : ∀ row ∈ selected, claimable row = true)
    (htasks : tasks.map (fun task => task.parts.taskId) =
      (claimedRows me.worker now selected).map fun row => some row.id)
    (hstands : ∀ task ∈ tasks, ∃ row, StandingClaim db me.worker
      (some me.token) false task row) :
    LoneWorker.Holding rows ids me
      ⟨db, state.held ++ tasks.map fun task => ⟨task, false⟩⟩ := by
  have hclaimed : ∀ id, some id ∈ tasks.map (fun task => task.parts.taskId) ↔
      id ∈ selected.map JobRow.id := by
    intro id
    rw [htasks, List.mem_map, List.mem_map]
    constructor
    · rintro ⟨row, hrow, hid⟩
      obtain ⟨old, hold, rfl⟩ :=
        List.mem_map.mp ((List.mem_insertionSort _).mp hrow)
      exact ⟨old, hold, Option.some.inj hid⟩
    · rintro ⟨row, hrow, rfl⟩
      exact ⟨claimRow me.worker now row, (List.mem_insertionSort _).mpr
        (List.mem_map_of_mem hrow), rfl⟩
  have hids : (tasks.map fun task => (⟨task, false⟩ : HeldTask)).map
      HeldTask.taskId = tasks.map fun task => task.parts.taskId := by
    rw [List.map_map]
    rfl
  refine ⟨hreached, ?_, ?_, ?_, ?_⟩
  · change (db.workers.get? _).any _ = true
    rw [hrewrote.workers]
    exact h.registered
  · intro held hheld
    rcases List.mem_append.mp hheld with hheld | hheld
    · obtain ⟨row, hqueue, hrow⟩ := h.stands held hheld
      exact ⟨row, hqueue, hrewrote.standing hrow
        (hrewrote.not_claimable hclaimable hrow)⟩
    · obtain ⟨task, htask, rfl⟩ := List.mem_map.mp hheld
      obtain ⟨row, hrow⟩ := hstands task htask
      refine ⟨row, ?_, hrow⟩
      have hmem := (hclaimed row.id).mp (List.mem_map.mpr
        ⟨task, htask, hrow.claimed.copies.taskId⟩)
      obtain ⟨old, hold, hid⟩ := List.mem_map.mp hmem
      rw [← Db.row_unique (hrewrote.mem_rewritten hold) hrow.stored hid]
      exact hrewrote.jobType old hold
  · rw [List.map_append, hids]
    refine List.Nodup.append h.distinct ?_ ?_
    · rw [htasks]
      have hnodup : ((claimedRows me.worker now selected).map
        JobRow.id).Nodup := claimedRows_ids_nodup hrewrote.selects
      have hsome := hnodup.map (Option.some_injective String)
      rwa [List.map_map] at hsome
    · intro taskId hheld hfetched
      obtain ⟨held, hmem, rfl⟩ := List.mem_map.mp hheld
      obtain ⟨row, _, hrow⟩ := h.stands held hmem
      apply hrewrote.not_claimable hclaimable hrow
      apply (hclaimed row.id).mp
      rw [← hrow.claimed.copies.taskId]
      exact hfetched
  · intro row hrow hqueue hactive howner
    rw [List.map_append, hids]
    rcases hrewrote.mem_cases hrow with ⟨old, hold, rfl⟩ | ⟨hkept, _⟩
    · exact List.mem_append_right _
        ((hclaimed old.id).mpr (List.mem_map_of_mem hold))
    · exact List.mem_append_left _ (h.covered row hkept hqueue hactive howner)

theorem LoneWorker.Holding.after_started (h : state.Holding rows ids me)
    {index : Nat} {held : HeldTask} {row : JobRow}
    (hreached : Reached ids db)
    (hheld : state.held[index]? = some held)
    (hrewrote : Rewrote me.queue startRow [row] state.db db)
    (hbefore : StandingClaim state.db me.worker (some me.token)
      held.started held.task row)
    (hstands : StandingClaim db me.worker (some me.token) true
      held.task (startRow row)) :
    LoneWorker.Holding rows ids me ⟨db, state.held.modify index
      fun held => { held with started := true }⟩ := by
  have hids : (state.held.modify index fun held =>
      { held with started := true }).map HeldTask.taskId =
        state.held.map HeldTask.taskId := by
    apply List.ext_getElem?
    intro n
    rw [List.getElem?_map, List.getElem?_map, List.getElem?_modify]
    cases state.held[n]? with
    | none => rfl
    | some other =>
        simp only [Option.map_eq_map, Option.map_some]
        split <;> rfl
  refine ⟨hreached, ?_, ?_, hids ▸ h.distinct, ?_⟩
  · change (db.workers.get? _).any _ = true
    rw [hrewrote.workers]
    exact h.registered
  · intro other hother
    obtain ⟨n, hn⟩ := List.getElem?_of_mem hother
    rw [List.getElem?_modify] at hn
    obtain ⟨old, hold, rfl⟩ := Option.map_eq_some_iff.mp hn
    by_cases heq : index = n
    · subst heq
      cases hheld.symm.trans hold
      rw [if_pos rfl]
      exact ⟨startRow row, hrewrote.jobType row List.mem_cons_self, hstands⟩
    · rw [if_neg heq]
      exact h.stands_beside hrewrote hheld hold (Ne.symm heq)
        hbefore.claimed.copies.taskId
  · intro other hother hqueue hactive howner
    rw [hids]
    rcases hrewrote.mem_cases hother with ⟨old, hold, rfl⟩ | ⟨hkept, _⟩
    · cases List.mem_singleton.mp hold
      exact List.mem_map.mpr ⟨held, List.mem_of_getElem? hheld,
        hbefore.claimed.copies.taskId⟩
    · exact h.covered other hkept hqueue hactive howner

theorem LoneWorker.Holding.after_settled (h : state.Holding rows ids me)
    {index : Nat} {held : HeldTask} {row : JobRow}
    {rewrite : JobRow → JobRow}
    (hreached : Reached ids db)
    (hheld : state.held[index]? = some held)
    (hrewrote : Rewrote me.queue rewrite [row] state.db db)
    (hbefore : StandingClaim state.db me.worker (some me.token)
      held.started held.task row)
    (hleaves : SpendsAttempt row (rewrite row)) :
    LoneWorker.Holding rows ids me ⟨db, state.held.eraseIdx index⟩ := by
  have htaskId : held.taskId = some row.id := hbefore.claimed.copies.taskId
  refine ⟨hreached, ?_, ?_,
    ((List.eraseIdx_sublist _ _).map _).nodup h.distinct, ?_⟩
  · change (db.workers.get? _).any _ = true
    rw [hrewrote.workers]
    exact h.registered
  · intro other hother
    obtain ⟨n, hne, hn⟩ := List.mem_eraseIdx_iff_getElem?.mp hother
    exact h.stands_beside hrewrote hheld hn hne htaskId
  · intro other hother hqueue hactive howner
    rcases hrewrote.mem_cases hother with ⟨old, hold, rfl⟩ | ⟨hkept, hnot⟩
    · cases List.mem_singleton.mp hold
      rw [hleaves.inactive] at hactive
      cases hactive
    · obtain ⟨entry, hentry, hid⟩ := List.mem_map.mp
        (h.covered other hkept hqueue hactive howner)
      obtain ⟨n, hn⟩ := List.getElem?_of_mem hentry
      refine List.mem_map.mpr ⟨entry, List.mem_eraseIdx_iff_getElem?.mpr
        ⟨n, ?_, hn⟩, hid⟩
      rintro rfl
      cases hheld.symm.trans hn
      apply hnot
      rw [List.map_singleton, List.mem_singleton]
      exact Option.some.inj (hid.symm.trans htaskId)

theorem LoneWorker.Holding.after_swept (h : state.Holding rows ids me)
    {now : Timestamp} {selected : List JobRow}
    (hreached : Reached ids db)
    (hrewrote : Rewrote me.queue (recoverRow now .staleSweep) selected
      state.db db)
    (hothers : ∀ row ∈ selected, row.lockBy ≠ some me.worker) :
    LoneWorker.Holding rows ids me ⟨db, state.held⟩ := by
  refine ⟨hreached, ?_, ?_, h.distinct, ?_⟩
  · change (db.workers.get? _).any _ = true
    rw [hrewrote.workers]
    exact h.registered
  · intro held hheld
    obtain ⟨row, hqueue, hstands⟩ := h.stands held hheld
    refine ⟨row, hqueue, hrewrote.standing hstands ?_⟩
    intro hmem
    exact hothers row (hrewrote.mem_selected hstands.stored hmem)
      hstands.lockBy
  · intro row hrow hqueue hactive howner
    rcases hrewrote.mem_cases hrow with ⟨old, _, rfl⟩ | ⟨hkept, _⟩
    · rw [recoverRow_active] at hactive
      cases hactive
    · exact h.covered row hkept hqueue hactive howner

theorem LoneWorker.Holding.after_renewed (h : state.Holding rows ids me)
    (hreached : Reached ids db)
    (hjobs : db.jobs = state.db.jobs)
    (htokens : KeepsTokens state.db.workers db.workers) :
    LoneWorker.Holding rows ids me ⟨db, state.held⟩ := by
  refine ⟨hreached, ?_, ?_, h.distinct, ?_⟩
  · obtain ⟨own, hown, haccepted⟩ := (Option.any_eq_true _ _).mp h.registered
    obtain ⟨found, hfound, hsame⟩ := htokens.find hown
    refine (Option.any_eq_true _ _).mpr ⟨found, hfound, ?_⟩
    simpa [tokenAccepted, hsame] using haccepted
  · intro held hheld
    obtain ⟨row, hqueue, hstands⟩ := h.stands held hheld
    exact ⟨row, hqueue, htokens.standing hjobs hstands⟩
  · change ∀ row ∈ db.jobs.rows, _
    rw [hjobs]
    exact h.covered

end

/-- Whatever the worker does next, its claims are what it holds. -/
theorem LoneWorker.Holding.step {turn : WorkerTurn}
    (h : state.Holding rows ids me) (hrenewed : state.renewed me turn = true)
    (hstep : state.step rows me turn = some after) :
    after.Holding rows ids me := by
  have hreached := h.step_reached hstep
  have hturned := h.turned hrenewed hstep
  generalize state.productive rows me turn = advanced at hturned
  cases hturned with
  | idle hdb =>
      exact h.after_renewed hreached (congrArg Db.jobs hdb) fun key =>
        congrArg (fun db : Db => (db.workers.get? key).map _) hdb
  | renewed hjobs htokens => exact h.after_renewed hreached hjobs htokens
  | fetched hrewrote hclaimable htasks hstands =>
      exact h.after_fetched hreached hrewrote hclaimable htasks hstands
  | started hheld hrewrote hbefore hstands =>
      exact h.after_started hreached hheld hrewrote hbefore hstands
  | settled hheld hrewrote hbefore hleaves =>
      exact h.after_settled hreached hheld hrewrote hbefore hleaves
  | swept hrewrote hactive hothers =>
      exact h.after_swept hreached hrewrote hothers

end

end ApalisPostgres
