/-
The lock path at statement granularity.  A task is looked up, the registration
of its queue is checked, and an UPDATE claims it; what others commit between
the statements decides whether the check was about the row that is claimed.
-/
import ApalisPostgres.JobWrites
import ApalisPostgres.RowInvariant

namespace ApalisPostgres

open RowStore

variable {rows : TaskConversion}

/-- The operation may insert the id into the queue. -/
def Op.enqueuesInto (queue id : String) : Op → Bool
  | .pushTasksOnConn target batch =>
      target = queue && batch.any fun task => task.id = id
  | _ => false

/-- A row a session leaves keeps the queue of the committed row, unless the
session enqueues it. -/
def QueueKept (server : PgServer) : Prop :=
  ∀ (index : Nat) (session : PgSession),
    server.sessions[index]? = some session →
    session.stage.isRunning = true →
    ∀ id row, (server.db.apply session.pending).jobs.get? id = some row →
      (∃ old, server.db.jobs.get? id = some old ∧
        old.jobType = row.jobType) ∨
        session.op.enqueuesInto row.jobType id = true

/-- One statement keeps the queue of the rows it finds. -/
theorem Executed.keeps_queue {env : Env} {view : Db} {stmt : Stmt}
    {effects : List Effect} (h : Executed env view stmt effects) {op : Op}
    {before : List (Ran sql)} (hordered : Ordered op before stmt)
    {id : String} {row : JobRow}
    (hrow : (view.apply effects).jobs.get? id = some row) :
    (∃ old, view.jobs.get? id = some old ∧ old.jobType = row.jobType) ∨
      op.enqueuesInto row.jobType id = true := by
  rcases h.job_cases id with ⟨change, hmem, rfl, hafter⟩ | ⟨_, hsame⟩
  · have hstep := h.jobStep hmem
    have hleft : change.after = some row := hafter.symm.trans hrow
    cases hbefore : change.before with
    | some old =>
        left
        refine ⟨old, ?_, (hstep.fixed_columns hbefore hleft).2.1.symm⟩
        rw [← hstep.reads.before_eq, hbefore]
    | none =>
        right
        cases hstep with
        | @enqueue queue batch task htask _ =>
            obtain rfl := Option.some.inj hleft
            rw [show op = .pushTasksOnConn queue batch from hordered]
            simp only [Op.enqueuesInto, NewJob.row, decide_true, Bool.true_and,
              List.any_eq_true, decide_eq_true_eq]
            exact ⟨task, htask, rfl⟩
        | _ => cases hbefore
  · exact Or.inl ⟨row, hsame.symm.trans hrow, rfl⟩

theorem reachable_queueKept {server : PgServer}
    (h : (pgServer rows).Reachable server) : QueueKept server := by
  have hkept := reachable_rowsKept (fun op _ stored id row =>
    (∃ old, stored = some old ∧ old.jobType = row.jobType) ∨
      op.enqueuesInto row.jobType id = true)
    (fun _ _ _ row => Or.inl ⟨row, rfl, rfl⟩) ?_ h
  · intro index session hsession hrunning id row hrow
    exact hkept index session hsession hrunning id row hrow
  · intro op before item stored id row hordered hfound hrow
    rcases (exec_executed item.executed).keeps_queue hordered hrow with
      ⟨found, hview, hqueue⟩ | henqueued
    · rcases hfound found hview with ⟨old, hold, hsame⟩ | henqueued
      · exact Or.inl ⟨old, hold, hsame.trans hqueue⟩
      · exact Or.inr (hqueue ▸ henqueued)
    · exact Or.inr henqueued

/-- A check of the registration that found the presented token, if any, and
shares the row since. -/
def CheckedFor (worker queue : String) (token : Option String)
    (check : Ran sql) : Prop :=
  ∀ presented, token = some presented →
    Carries check.base worker queue presented ∧
      (Resource.registration worker queue, LockMode.keyShare) ∈
        rowLocks.acquires check

/-- What a lock call did before its UPDATE: it looked the task up and, where
it found one, checked the registration of that queue. -/
def LookedUp (taskId worker : String) (scope token : Option String)
    (before : List (Ran sql)) : Stmt → Prop
  | .lockTask named id queue =>
      named = worker ∧ id = taskId ∧ queue = scope ∧
        (∀ earlier ∈ before, earlier.stmt.readOnly = true) ∧
        ∃ lookup rest, before = lookup :: rest ∧
          ((∀ row, lookup.base.jobs.get? taskId = some row →
              ¬ (scope = none ∨ scope = some row.jobType)) ∨
            ∃ row check, lookup.base.jobs.get? taskId = some row ∧
              rest = [check] ∧ CheckedFor worker row.jobType token check)
  | stmt => stmt.readOnly = true

/-- The UPDATE ends the call whatever it matched. -/
theorem lockTask_lookedUp {taskId worker : String}
    {scope token : Option String} {before : List (Ran sql)}
    (h : LookedUp taskId worker scope token before
      (.lockTask worker taskId scope)) :
    Program.IssuesAfter (LookedUp taskId worker scope token)
      (fun trace value => Program.IssuesAfter
        (LookedUp taskId worker scope token) (fun _ _ => True) trace
        (pure (Outcome.tasks [value]))) before
      (query "locking task" (.lockTask worker taskId scope) >>=
        lockedTask rows taskId scope) := by
  apply issuesAfter_query h
  intro env base locked changes hexec
  cases locked with
  | nil => trivial
  | cons row rest =>
      simp only [lockedTask]
      cases claimedTaskRow rows row <;> trivial

theorem lockTaskWithToken_lookedUp (taskId worker : String)
    (scope token : Option String) :
    (program rows (.lockTaskWithToken taskId worker scope token)).IssuesAfter
      (LookedUp taskId worker scope token) (fun _ _ => True) [] := by
  apply Program.issuesAfter_bind
  apply issuesAfter_read rfl rfl rfl
  intro env base located hexec
  have hplan := (exec_ok hexec).1
  simp only [Stmt.plan, Except.ok.injEq, Prod.mk.injEq, and_true] at hplan
  let lookup : Ran sql :=
    ⟨.taskQueue taskId scope, env, base, base, located, [], hexec⟩
  cases located with
  | none =>
      apply lockTask_lookedUp
      refine ⟨rfl, rfl, rfl, by simp [Stmt.readOnly], lookup, [], rfl,
        Or.inl ?_⟩
      intro row hrow hscope
      have hget : base.jobs.get? taskId = some row := hrow
      rw [hget] at hplan
      rcases hscope with rfl | rfl <;> simp at hplan
  | some queue =>
      have hfound : ∃ row, base.jobs.get? taskId = some row ∧
          row.jobType = queue := by
        obtain ⟨row, hrow, hqueue⟩ := Option.map_eq_some_iff.mp hplan
        exact ⟨row, (Option.filter_eq_some_iff.mp hrow).1, hqueue⟩
      obtain ⟨row, hrow, rfl⟩ := hfound
      apply Program.issuesAfter_bind
      apply issuesAfter_read rfl rfl rfl
      intro env base registration hexec
      let check : Ran sql :=
        ⟨.workerRegistration worker row.jobType token, env, base, base,
          registration, [], hexec⟩
      have hlock : CheckedFor worker row.jobType token check →
          LookedUp taskId worker scope token [lookup, check]
            (.lockTask worker taskId scope) := by
        intro hchecked
        exact ⟨rfl, rfl, rfl, by simp [lookup, check, Stmt.readOnly], lookup,
          [check], rfl,
          Or.inr ⟨row, check, hrow, rfl, hchecked⟩⟩
      cases token with
      | none =>
          apply lockTask_lookedUp
          exact hlock fun presented hpresented => by cases hpresented
      | some presented =>
          cases registration with
          | absent => trivial
          | replaced => trivial
          | current =>
              apply lockTask_lookedUp
              apply hlock
              intro token htoken
              have hholds := plan_workerRegistration (exec_ok hexec).1 rfl
                token htoken
              obtain ⟨owner, howner, hcarries⟩ := hholds
              refine ⟨⟨owner, howner, hcarries⟩, ?_⟩
              apply List.mem_append_left
              simp [check, statementLocks, howner]

/-- The lock statement of the path. -/
def Stmt.isLock : Stmt → Bool
  | .lockTask .. => true
  | _ => false

theorem not_isLock_of_readOnly {stmt : Stmt} (h : stmt.readOnly = true) :
    stmt.isLock = false := by
  cases stmt <;> first | rfl | cases h

theorem LookedUp.readOnly_before {taskId worker : String}
    {scope token : Option String} {before : List (Ran sql)} {stmt : Stmt}
    (h : LookedUp taskId worker scope token before stmt)
    (hlock : stmt.isLock = true) :
    ∀ earlier ∈ before, earlier.stmt.readOnly = true := by
  cases stmt with
  | lockTask => exact h.2.2.2.1
  | _ => cases hlock

theorem session_lookedUp {server : PgServer}
    (h : (pgServer rows).Reachable server) {index : Nat} {session : PgSession}
    (hsession : server.sessions[index]? = some session)
    {taskId worker : String} {scope token : Option String}
    (hop : session.op = .lockTaskWithToken taskId worker scope token)
    {before : List (Ran sql)} {item : Ran sql}
    (hissued : session.Issued before item) :
    LookedUp taskId worker scope token before item.stmt ∧
      item.view = item.base.apply (written before) := by
  have hbody : (program rows session.op).IssuesAfter
      (LookedUp taskId worker scope token) (fun _ _ => True) [] :=
    hop ▸ lockTaskWithToken_lookedUp taskId worker scope token
  exact (Server.reachable_disciplined h hsession hbody).issued before item
    hissued

/-- The scope of a lock call lets it take tasks of the queue. -/
def inScope (scope : Option String) (queue : String) : Bool :=
  scope.isNone || scope = some queue

/-- The session is a lock call between its lookup and its UPDATE, and a task
enqueued under its id into the queue is one it would take although the lookup
did not locate it there. -/
def misses (queue id : String) (session : PgSession) : Bool :=
  match session.op, session.trace with
  | .lockTaskWithToken taskId _ scope _, lookup :: _ =>
      taskId = id && session.stage.isRunning &&
        !(session.trace.any fun item => item.stmt.isLock) &&
        inScope scope queue &&
        (lookup.base.jobs.get? id).all fun row => row.jobType ≠ queue
  | _, _ => false

/-- The event does not commit an enqueue that the call, a session of the
server, would take without having located it. -/
def noMissedEnqueue (call : Nat) (server : PgServer) : PgEvent → Bool
  | .finish index => (server.sessions[index]?).all fun writer =>
      match writer.op with
      | .pushTasksOnConn queue batch => !writer.stage.isCommitting ||
          batch.all fun task => (server.sessions[call]?).all fun session =>
            !misses queue task.id session
      | _ => true
  | _ => true

/-- Whatever the scope admits of the second database, the first one located
in the same queue. -/
def LocatedBy (scope : Option String) (taskId : String) (located db : Db) :
    Prop :=
  ∀ row, db.jobs.get? taskId = some row → inScope scope row.jobType = true →
    ∃ old, located.jobs.get? taskId = some old ∧ old.jobType = row.jobType

theorem LocatedBy.refl (scope : Option String) (taskId : String) (db : Db) :
    LocatedBy scope taskId db db :=
  fun row hrow _ => ⟨row, hrow, rfl⟩

/-- What the lookup of a call located, up to its UPDATE and at it. -/
structure LookupFits (server : PgServer) (session : PgSession)
    (taskId : String) (scope : Option String) (lookup : Ran sql) : Prop where
  stands : session.stage.isRunning = true →
    (∀ item ∈ session.trace, item.stmt.isLock = false) →
    LocatedBy scope taskId lookup.base server.db
  fits : ∀ item ∈ session.trace, item.stmt.isLock = true →
    LocatedBy scope taskId lookup.base item.base

/-- The lookup of the call fits, if it is a lock call. -/
def CallFits (call : Nat) (server : PgServer) : Prop :=
  ∀ session, server.sessions[call]? = some session →
    ∀ taskId worker scope token,
      session.op = .lockTaskWithToken taskId worker scope token →
      ∀ lookup rest, session.trace = lookup :: rest →
        LookupFits server session taskId scope lookup

/-- A commit that the lookup of the call does not miss leaves it as it is. -/
theorem LocatedBy.commit {server : PgServer}
    (h : (pgServer rows).Reachable server) {turn call : Nat}
    {writer session : PgSession} {value : Outcome}
    (hwriter : server.sessions[turn]? = some writer)
    (hstage : writer.stage = .running (.commit value))
    (hspares : noMissedEnqueue call server (.finish turn) = true)
    (hsession : server.sessions[call]? = some session)
    (hrunning : session.stage.isRunning = true)
    {taskId worker : String} {scope token : Option String}
    (hop : session.op = .lockTaskWithToken taskId worker scope token)
    {lookup : Ran sql} {rest : List (Ran sql)}
    (htrace : session.trace = lookup :: rest)
    (hunlocked : ∀ item ∈ session.trace, item.stmt.isLock = false)
    (hstands : LocatedBy scope taskId lookup.base server.db) :
    LocatedBy scope taskId lookup.base (server.db.apply writer.pending) := by
  intro row hrow hscope
  have hwriting : writer.stage.isRunning = true := by rw [hstage]; rfl
  rcases reachable_queueKept h turn writer hwriter hwriting taskId row hrow with
    ⟨old, hold, hqueue⟩ | henqueued
  · obtain ⟨first, hfirst, hsame⟩ := hstands old hold (hqueue ▸ hscope)
    exact ⟨first, hfirst, hsame.trans hqueue⟩
  · by_contra hmissed
    have hmisses : misses row.jobType taskId session = true := by
      have hnone : (session.trace.any fun item => item.stmt.isLock) =
          false := by
        rw [List.any_eq_false]
        intro item hitem
        rw [hunlocked item hitem]
        exact Bool.false_ne_true
      have helsewhere : ((lookup.base.jobs.get? taskId).all fun found =>
          decide (found.jobType ≠ row.jobType)) = true := by
        rw [Option.all_eq_true]
        intro found hfound
        rw [decide_eq_true_eq]
        intro heq
        exact hmissed ⟨found, hfound, heq⟩
      rw [htrace] at hnone
      simp only [misses, hop, htrace, hrunning, hnone, hscope, helsewhere,
        decide_true, Bool.not_false, Bool.and_true]
    cases hpush : writer.op with
    | pushTasksOnConn queue batch =>
        simp only [hpush, Op.enqueuesInto, Bool.and_eq_true, decide_eq_true_eq,
          List.any_eq_true] at henqueued
        obtain ⟨rfl, task, htask, rfl⟩ := henqueued
        simp only [noMissedEnqueue, hwriter, Option.all_some, hpush, hstage,
          Stage.isCommitting, Bool.not_true, Bool.false_or,
          List.all_eq_true] at hspares
        have hnot := hspares task htask
        rw [hsession, Option.all_some, hmisses] at hnot
        cases hnot
    | _ => simp [hpush, Op.enqueuesInto] at henqueued

theorem CallFits.step {call : Nat} {server after : PgServer} {event : PgEvent}
    (h : (pgServer rows).Reachable server) (hserver : CallFits call server)
    (hspares : noMissedEnqueue call server event = true)
    (hevent : (pgServer rows).step server event = some after) :
    CallFits call after := by
  have hmoves := Server.step_cases hevent
  intro session hsession taskId worker scope token hop lookup rest htrace
  rcases hmoves.sessions hsession with
    hold | ⟨_, op, rfl⟩ | ⟨old, hold, hadvances⟩
  · have hfits := hserver session hold taskId worker scope token hop lookup
      rest htrace
    refine ⟨?_, hfits.fits⟩
    intro hrunning hunlocked
    have hstands := hfits.stands hrunning hunlocked
    rcases hmoves.db_cases with hsame |
      ⟨turn, writer, value, rfl, hwriter, hstage, hdb, _, _⟩
    · rwa [hsame]
    · rw [hdb]
      exact hstands.commit h hwriter hstage hspares hold hrunning hop htrace
        hunlocked
  · cases htrace
  · rw [hadvances.op_eq] at hop
    cases hadvances with
    | ran item hstage hbase hview =>
        have hdb : after.db = server.db :=
          hmoves.db_eq_of_ran hold hsession (by simp)
        have hrunning : old.stage.isRunning = true := by rw [hstage]; rfl
        rw [← hdb] at hbase
        cases hearlier : old.trace with
        | nil =>
            dsimp only at htrace
            rw [hearlier] at htrace
            obtain ⟨rfl, _⟩ := List.cons_eq_cons.mp htrace
            refine ⟨fun _ _ => hbase ▸ LocatedBy.refl _ _ _, ?_⟩
            intro other hother _
            obtain rfl := List.mem_singleton.mp hother
            exact LocatedBy.refl _ _ _
        | cons first earlier =>
            dsimp only at htrace
            rw [hearlier] at htrace
            obtain ⟨rfl, _⟩ := List.cons_eq_cons.mp htrace
            have hfits := hserver old hold taskId worker scope token hop first
              earlier hearlier
            have hstands : (∀ other ∈ old.trace, other.stmt.isLock = false) →
                LocatedBy scope taskId first.base after.db := by
              intro hunlocked
              rw [hdb]
              exact hfits.stands hrunning hunlocked
            constructor
            · intro _ hunlocked
              apply hstands
              intro other hother
              rw [hearlier] at hother
              exact hunlocked other (List.mem_append_left _ hother)
            · intro other hother hlock
              rcases List.mem_append.mp hother with hmem | hlast
              · exact hfits.fits other (hearlier ▸ hmem) hlock
              · obtain rfl := List.mem_singleton.mp hlast
                rw [hbase]
                apply hstands
                intro earlier hmem
                have hissued := session_lookedUp (h.step hevent) hsession hop
                  (List.prefix_rfl : old.trace ++ [other] <+:
                    old.trace ++ [other])
                exact not_isLock_of_readOnly
                  (hissued.1.readOnly_before hlock earlier hmem)
    | faulted _ _ | committed _ | refused _ | aborted _ _ =>
        refine ⟨(fun hrunning => by cases hrunning), ?_⟩
        exact (hserver old hold taskId worker scope token hop lookup rest
          htrace).fits

/-- What a lock call wrote by the time it commits is one locked row, whose
registration it checked. -/
theorem locked_carries {server : PgServer}
    (h : (pgServer rows).Reachable server) {index : Nat}
    (hfits : CallFits index server) {session : PgSession}
    (hsession : server.sessions[index]? = some session)
    (hrunning : session.stage.isRunning = true)
    {taskId worker token : String} {scope : Option String}
    (hop : session.op = .lockTaskWithToken taskId worker scope (some token))
    {change : JobChange} (hchange : change ∈ jobChanges session.pending)
    {row : JobRow} (hafter : change.after = some row) :
    row.status = .running ∧ row.lockBy = some worker ∧
      Carries server.db worker row.jobType token := by
  obtain ⟨item, hitem, hmem⟩ := mem_written_jobs hchange
  obtain ⟨before, later, htrace⟩ := List.append_of_mem hitem
  have hissued : session.Issued before item := by
    rw [Session.Issued, htrace]
    exact ⟨later, by simp⟩
  obtain ⟨hlooked, hview⟩ := session_lookedUp h hsession hop hissued
  have hstep := (exec_executed item.executed).jobStep hmem
  have hread : item.stmt.readOnly = false := by
    by_contra hread
    rw [Bool.not_eq_false] at hread
    exact readOnly_jobStep hread change hstep
  obtain ⟨named, id, queue, hstmt⟩ :
      ∃ named id queue, item.stmt = .lockTask named id queue := by
    cases hstmt : item.stmt with
    | lockTask named id queue => exact ⟨named, id, queue, rfl⟩
    | _ =>
        rw [hstmt] at hlooked hread
        rw [show Stmt.readOnly _ = true from hlooked] at hread
        cases hread
  rw [hstmt] at hlooked hstep
  obtain ⟨rfl, rfl, rfl, hreads, lookup, rest, rfl, hlocated⟩ := hlooked
  have hunwritten : written (lookup :: rest) = [] := by
    apply List.flatMap_eq_nil_iff.mpr
    intro earlier hearlier
    exact readOnly_exec (hreads earlier hearlier) earlier.executed
  rw [hunwritten] at hview
  cases hstep with
  | @lock _ _ old hstored hqueue _ =>
      obtain rfl := Option.some.inj hafter
      refine ⟨rfl, rfl, ?_⟩
      have hbase : item.base.jobs.get? old.id = some old := by
        have hget := Table.get?_of_mem hstored
        rwa [hview] at hget
      have hscope : inScope queue old.jobType = true := by
        rcases hqueue with rfl | rfl <;> simp [inScope]
      have hfirst : session.trace = lookup :: (rest ++ item :: later) := htrace
      obtain ⟨found, hfound, hsame⟩ := (hfits session hsession old.id named queue
        (some token) hop lookup _ hfirst).fits item hitem
        (by rw [hstmt]; rfl) old hbase hscope
      rcases hlocated with hnone | ⟨other, check, hother, rfl, hchecked⟩
      · exact absurd (hsame ▸ hqueue) (hnone found hfound)
      · rw [hfound] at hother
        obtain rfl := Option.some.inj hother
        obtain ⟨hcarries, hlock⟩ := hchecked token rfl
        have hissuedCheck : session.Issued [lookup] check := by
          rw [Session.Issued, hfirst]
          exact ⟨item :: later, rfl⟩
        have hheld : (Resource.registration named found.jobType,
            LockMode.keyShare) ∈ rowLocks.held ([lookup] ++ [check]) :=
          List.mem_flatMap.mpr ⟨check, by simp, hlock⟩
        have hstands := (carries_guarded named found.jobType token).stable h
          hsession hrunning hissuedCheck hheld rfl hcarries
        rw [hsame] at hstands
        exact hstands

/-- In every run in which no enqueue slips between the lookup and the UPDATE
of the lock call into a queue its lookup did not locate, a row that the call
commits as Running belongs to a registration that carries its token. -/
theorem lock_path_fenced {server after : PgServer} {index : Nat}
    (hrun : (pgServer rows).FollowsWhere
      (fun state event => noMissedEnqueue index state event = true) idleServer
      server)
    {session : PgSession} {value : Outcome}
    (hsession : server.sessions[index]? = some session)
    (hstage : session.stage = .running (.commit value))
    {taskId worker token : String} {scope : Option String}
    (hop : session.op = .lockTaskWithToken taskId worker scope (some token))
    {change : JobChange} (hchange : change ∈ jobChanges session.pending)
    {row : JobRow} (hafter : change.after = some row)
    (hcommit : (pgServer rows).step server (.finish index) = some after) :
    row.status = .running ∧ row.lockBy = some worker ∧
      Carries after.db worker row.jobType token := by
  have hinv : (pgServer rows).Reachable server ∧ CallFits index server := by
    apply hrun.invariant fun state =>
      (pgServer rows).Reachable state ∧ CallFits index state
    · rintro state next event ⟨hreachable, hfits⟩ hspares hevent
      exact ⟨hreachable.step hevent, hfits.step hreachable hspares hevent⟩
    · refine ⟨⟨idleServer, rfl, Relation.ReflTransGen.refl⟩, ?_⟩
      intro session hfound
      simp [idleServer] at hfound
  have hrunning : session.stage.isRunning = true := by rw [hstage]; rfl
  obtain ⟨hstatus, hlockBy, hcarries⟩ := locked_carries hinv.1 hinv.2 hsession
    hrunning hop hchange hafter
  refine ⟨hstatus, hlockBy, ?_⟩
  have hdb : after.db = server.db.apply session.pending := by
    have hevent := hcommit
    simp only [pgServer, Server.machine, Server.step, hsession, hstage,
      Option.some.injEq] at hevent
    rw [← hevent]
    rfl
  obtain ⟨owner, howner, htoken⟩ := hcarries
  refine ⟨owner, ?_, htoken⟩
  have hsame : (server.db.apply session.pending).workers.get?
      (worker, row.jobType) = server.db.workers.get? (worker, row.jobType) := by
    rcases registration_cases hinv.1 hsession hrunning (worker, row.jobType)
      with ⟨_, hsame⟩ | ⟨before, item, written, _, hwrite⟩
    · exact hsame
    · have hlooked :=
        (session_lookedUp hinv.1 hsession hop hwrite.issued).1
      have hstep := hwrite.step
      clear hwrite
      obtain ⟨stmt, env, base, view, result, changes, hexec⟩ := item
      cases hstep <;> cases hlooked
  rw [hdb, hsame, howner]

/-- The call of the runs below, about to commit a row of the queue. -/
def locksSample (session : PgSession) : Bool :=
  session.stage.isCommitting &&
    (match session.op with
      | .lockTaskWithToken taskId worker scope token =>
          decide (taskId = sampleId ∧ worker = "worker" ∧ scope = none ∧
            token = some "token")
      | _ => false) &&
    (jobChanges session.pending).any fun change => change.after.any fun row =>
      decide (row.jobType = "queue" ∧ row.status = .running ∧
        row.lockBy = some "worker")

theorem locksSample_spec {session : PgSession}
    (h : locksSample session = true) :
    ∃ value change row, session.stage = .running (.commit value) ∧
      session.op = .lockTaskWithToken sampleId "worker" none (some "token") ∧
      change ∈ jobChanges session.pending ∧ change.after = some row ∧
      row.jobType = "queue" ∧ row.status = .running ∧
      row.lockBy = some "worker" := by
  simp only [locksSample, Bool.and_eq_true, List.any_eq_true,
    Option.any_eq_true] at h
  obtain ⟨⟨hcommitting, hcall⟩, change, hchange, row, hafter, hrow⟩ := h
  obtain ⟨value, hstage⟩ := Stage.isCommitting_iff.mp hcommitting
  refine ⟨value, change, row, hstage, ?_, hchange, hafter,
    of_decide_eq_true hrow⟩
  cases hop : session.op with
  | lockTaskWithToken taskId worker scope token =>
      rw [hop] at hcall
      obtain ⟨rfl, rfl, rfl, rfl⟩ := of_decide_eq_true hcall
      rfl
  | _ =>
      rw [hop] at hcall
      cases hcall

/-- A task that was enqueued before the lookup is locked under the token,
whatever another lock call missed. -/
theorem lock_path_fenced_located :
    let env : Env := quietEnv 0
    let events : List PgEvent := [
      .begin (.registerWorker "worker" "queue" storageName "" "token" 30),
      .statement 0 env, .statement 0 env, .statement 0 env, .finish 0,
      .begin (.lockTaskWithToken sampleId "other" none none),
      .statement 1 env,
      .begin (.pushTasksOnConn "queue" [sampleTask]), .statement 2 env,
      .finish 2,
      .begin (.lockTaskWithToken sampleId "worker" none (some "token")),
      .statement 3 env, .statement 3 env, .statement 3 env]
    let server := ((pgServer .copying).runWhere (noMissedEnqueue 3) idleServer
      events).getD idleServer
    ∃ (after : PgServer) (row : JobRow),
      (pgServer .copying).step server (.finish 3) = some after ∧
      row.jobType = "queue" ∧ row.status = .running ∧
      row.lockBy = some "worker" ∧
      Carries after.db "worker" row.jobType "token" := by
  intro env events server
  have hserver : (pgServer .copying).FollowsWhere
      (fun state event => noMissedEnqueue 3 state event = true) idleServer
      server :=
    Machine.followsWhere_of_run events
      (Machine.runWhere_eq_getD idleServer (by decide +kernel))
  have hcall : (server.sessions[3]?).any locksSample = true := by
    decide +kernel
  obtain ⟨session, hsession, hlocks⟩ := (Option.any_eq_true _ _).mp hcall
  obtain ⟨value, change, row, hstage, hop, hchange, hafter, hqueue, _⟩ :=
    locksSample_spec hlocks
  have hcommit : (pgServer .copying).step server (.finish 3) = some
      { server.replace 3 { session with stage := .committed value } with
        db := sql.apply server.db session.pending } := by
    simp only [pgServer, Server.machine, Server.step, hsession, hstage]
  exact ⟨_, row, hcommit, hqueue,
    lock_path_fenced hserver hsession hstage hop hchange hafter hcommit⟩

/-- A task enqueued between the lookup and the UPDATE is locked without any
check: the row is Running under a name that another token registered. -/
theorem lock_path_misses_enqueue :
    ¬ ∀ (server after : PgServer) (index : Nat) (session : PgSession)
      (value : Outcome) (taskId worker token : String) (scope : Option String)
      (change : JobChange) (row : JobRow),
      (pgServer .copying).Reachable server →
      server.sessions[index]? = some session →
      session.stage = .running (.commit value) →
      session.op = .lockTaskWithToken taskId worker scope (some token) →
      change ∈ jobChanges session.pending → change.after = some row →
      row.status = .running → row.lockBy = some worker →
      (pgServer .copying).step server (.finish index) = some after →
      Carries after.db worker row.jobType token := by
  intro hclaim
  let env : Env := quietEnv 0
  let events : List PgEvent := [
    .begin (.registerWorker "worker" "queue" storageName "" "other" 30),
    .statement 0 env, .statement 0 env, .statement 0 env, .finish 0,
    .begin (.lockTaskWithToken sampleId "worker" none (some "token")),
    .statement 1 env,
    .begin (.pushTasksOnConn "queue" [sampleTask]), .statement 2 env,
    .finish 2, .statement 1 env]
  let server := ((pgServer .copying).run idleServer events).getD idleServer
  have hserver : (pgServer .copying).Reachable server :=
    ⟨idleServer, rfl, Machine.follows_of_run events
      (Machine.run_eq_getD idleServer (by decide +kernel))⟩
  have hcall : (server.sessions[1]?).any locksSample = true := by
    decide +kernel
  obtain ⟨session, hsession, hlocks⟩ := (Option.any_eq_true _ _).mp hcall
  obtain ⟨value, change, row, hstage, hop, hchange, hafter, hqueue, hstatus,
    hlockBy⟩ := locksSample_spec hlocks
  have hcommit : (pgServer .copying).step server (.finish 1) = some
      { server.replace 1 { session with stage := .committed value } with
        db := sql.apply server.db session.pending } := by
    simp only [pgServer, Server.machine, Server.step, hsession, hstage]
  have hcarries := hclaim server _ 1 session value sampleId "worker" "token" none
    change row hserver hsession hstage hop hchange hafter hstatus hlockBy
    hcommit
  obtain ⟨owner, howner, htoken⟩ := hcarries
  have hother : ((server.sessions[1]?).bind fun session =>
      ((server.db.apply session.pending).workers.get?
        ("worker", "queue")).map WorkerRow.leaseToken) =
      some (some "other") := by decide +kernel
  rw [hqueue] at howner
  rw [hsession] at hother
  have hfound : (server.db.apply session.pending).workers.get?
      ("worker", "queue") = some owner := howner
  simp only [Option.bind_some, hfound, Option.map_some, htoken,
    Option.some.injEq] at hother
  exact absurd hother (by decide)

end ApalisPostgres
