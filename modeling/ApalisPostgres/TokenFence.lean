/-
Token fencing.  Once a registration has stopped carrying a token, whoever
still presents that token for it is refused and changes nothing, however the
statements of the takeover, of the release and of the refused operation
interleave.
-/
import ApalisPostgres.Registrations

namespace ApalisPostgres

open RowStore

variable {rows : TaskConversion}

/-- Every task a lookup of the trace located belongs to the queue. -/
def LocatedIn (queue : String) (trace : List (Ran sql)) : Prop :=
  ∀ item ∈ trace, ∀ id scope row, item.stmt = .taskQueue id scope →
    item.view.jobs.get? id = some row → row.jobType = queue

/-- The operation presents the token for the registration.  The release of an
undecodable task presents it for the queue its lookup located. -/
inductive Presents (worker queue token : String) :
    Op → List (Ran sql) → Prop where
  | fetchNext {bufferSize : Nat} {trace : List (Ran sql)} :
      Presents worker queue token
        (.fetchNext worker queue bufferSize (some token)) trace
  | queueById {ids : List String} {trace : List (Ran sql)} :
      Presents worker queue token
        (.queueById queue ids worker (some token)) trace
  | startTask {claim : StartClaim} {trace : List (Ran sql)}
      (hworker : claim.workerId = worker) (hqueue : claim.queue = queue)
      (htoken : claim.leaseToken = some token) :
      Presents worker queue token (.startTask claim) trace
  | acknowledge {presented : Option String} {res : HandlerResult}
      {parts : Parts} {update : AckTaskUpdate} {trace : List (Ran sql)}
      (hupdate : ackUpdate presented res parts = .ok update)
      (hworker : update.workerId = worker) (hqueue : update.queue = queue)
      (htoken : update.leaseToken = some token) :
      Presents worker queue token (.acknowledge presented res parts) trace
  | failUndecodableTask {taskId : String} {lockAt attempts : Int}
      {error : String} {trace : List (Ran sql)}
      (hlocated : LocatedIn queue trace) :
      Presents worker queue token
        (.failUndecodableTask taskId worker lockAt attempts error (some token))
        trace
  | keepAlive {trace : List (Ran sql)} :
      Presents worker queue token (.keepAlive worker queue token) trace
  | releaseWorker {trace : List (Ran sql)} :
      Presents worker queue token (.releaseWorker queue worker token) trace

/-- How an operation reports that its token does not own the registration. -/
def Refusal (worker queue : String) : Op → Except Error Outcome → Prop
  | .fetchNext .., outcome | .queueById .., outcome =>
      ∃ hint, outcome =
        .error (.workerNotRegistered "claiming task" worker queue hint)
  | .startTask _, outcome => outcome = .ok (.started false)
  | .acknowledge presented res parts, outcome =>
      ∃ update, ackUpdate presented res parts = .ok update ∧
        outcome = .error (.staleAcknowledgement update.taskId queue worker)
  | .failUndecodableTask .., outcome => outcome = .ok (.count 0)
  | .keepAlive .., outcome =>
      ∃ hint, outcome = .error
        (.workerNotRegistered "updating worker heartbeat" worker queue hint)
  | .releaseWorker .., outcome =>
      ∃ hint, outcome = .error (.workerNotRegistered
        "releasing worker registration" worker queue hint)
  | _, _ => False

/-- The operation looks the queue of its task up. -/
def Op.looksUp : Op → Bool
  | .failUndecodableTask .. => true
  | _ => false

/-- The statements of an operation that check the token, where they find it.
A lookup that locates another queue leaves the registration alone. -/
def passesFence (worker queue token : String) (op : Op) : Stmt → Db → Prop
  | .workerRegistration named scope _, db =>
      named = worker ∧ scope = queue ∧ Carries db worker queue token
  | .startTask claim, db =>
      claim.workerId = worker ∧ claim.queue = queue ∧
        claim.leaseToken = some token ∧ Carries db worker queue token
  | .lockForRelease named scope presented, db =>
      named = worker ∧ scope = queue ∧ presented = token ∧
        Carries db worker queue token
  | .keepAlive named scope presented, db =>
      named = worker ∧ scope = queue ∧ presented = token ∧
        Carries db worker queue token
  | .taskQueue id _, db => op.looksUp = true ∧
      ∃ row, db.jobs.get? id = some row ∧ row.jobType ≠ queue
  | _, _ => False

variable {worker queue token : String} {op : Op}

theorem exec_workerRegistration_lost {env : Env} {db : Db}
    (h : ¬ Carries db worker queue token) :
    ∃ registration, registration ≠ Registration.current ∧
      (Stmt.workerRegistration worker queue (some token)).exec env db =
        .ok (registration, []) := by
  cases hget : db.workers.get? (worker, queue) with
  | none =>
      refine ⟨.absent, by decide, exec_of_plan_nil ?_⟩
      simp [Stmt.plan, hget]
  | some row =>
      have htoken : row.leaseToken ≠ some token :=
        fun heq => h ⟨row, hget, heq⟩
      refine ⟨.replaced, by decide, exec_of_plan_nil ?_⟩
      simp [Stmt.plan, hget, tokenAccepted, htoken]

/-- A statement that writes nothing where it does not pass. -/
theorem fenced_query {α : Type} {passes : Stmt → Db → Prop}
    {refusal : Except Error α → Prop} {operation : String} {stmt : Stmt}
    {next : stmt.Result → Tx α}
    (hnext : ∀ (env : Env) db, ¬ passes stmt db →
      ∃ result, stmt.exec env db = .ok (result, []) ∧
        (next result).Fenced sql passes refusal) :
    (Program.statement operation stmt next).Fenced sql passes refusal := by
  intro env db hpasses
  obtain ⟨result, hexec, hfenced⟩ := hnext env db hpasses
  rw [show sql.exec stmt env db = .ok (result, []) from hexec]
  exact ⟨rfl, hfenced⟩

/-- A registration check that fails takes the other branch. -/
theorem workerRegistration_fenced {α : Type}
    {refusal : Except Error α → Prop} {operation : String}
    {next : Registration → Tx α}
    (habsent : (next .absent).Fenced sql (passesFence worker queue token op)
      refusal)
    (hreplaced : (next .replaced).Fenced sql (passesFence worker queue token op)
      refusal) :
    Program.Fenced sql (passesFence worker queue token op) refusal
      (.statement operation (.workerRegistration worker queue (some token))
        next) := by
  apply fenced_query
  intro env db hpasses
  obtain ⟨registration, hne, hexec⟩ := exec_workerRegistration_lost
    (fun hcarries => hpasses ⟨rfl, rfl, hcarries⟩)
  refine ⟨registration, hexec, ?_⟩
  cases registration with
  | absent => exact habsent
  | replaced => exact hreplaced
  | current => exact absurd rfl hne

theorem any_token_lost {db : Db} (h : ¬ Carries db worker queue token) :
    ((db.workers.get? (worker, queue)).any fun row =>
      decide (row.leaseToken = some token)) = false := by
  by_contra hany
  rw [Bool.not_eq_false, Option.any_eq_true] at hany
  obtain ⟨row, hrow, htoken⟩ := hany
  exact h ⟨row, hrow, of_decide_eq_true htoken⟩

theorem startTask_fenced {claim : StartClaim}
    (hworker : claim.workerId = worker) (hqueue : claim.queue = queue)
    (htoken : claim.leaseToken = some token) :
    (program rows (.startTask claim)).Fenced sql
      (passesFence worker queue token (.startTask claim))
      (Refusal worker queue (.startTask claim)) := by
  apply fenced_query
  intro env db hpasses
  have hlost := any_token_lost
    (fun hcarries => hpasses ⟨hworker, hqueue, htoken, hcarries⟩)
  refine ⟨0, exec_of_plan_nil ?_, rfl⟩
  subst hworker hqueue
  have hfence : (db.workers.get? (claim.workerId, claim.queue)).any
      (tokenAccepted claim.leaseToken) = false := by
    rw [htoken]
    exact hlost
  simp [Stmt.plan, hfence, updateJobs, updateChanges]

theorem acknowledge_fenced {presented : Option String} {res : HandlerResult}
    {parts : Parts} {update : AckTaskUpdate}
    (hupdate : ackUpdate presented res parts = .ok update)
    (hworker : update.workerId = worker) (hqueue : update.queue = queue)
    (htoken : update.leaseToken = some token) :
    (program rows (.acknowledge presented res parts)).Fenced sql
      (passesFence worker queue token (.acknowledge presented res parts))
      (Refusal worker queue (.acknowledge presented res parts)) := by
  subst hworker hqueue
  simp only [program, acknowledge, hupdate, ackTask, htoken]
  apply workerRegistration_fenced
  · exact ⟨update, hupdate, rfl⟩
  · exact ⟨update, hupdate, rfl⟩

theorem failUndecodableTask_fenced (taskId : String) (lockAt attempts : Int)
    (error : String) :
    (program rows (.failUndecodableTask taskId worker lockAt attempts error
        (some token))).Fenced sql
      (passesFence worker queue token
        (.failUndecodableTask taskId worker lockAt attempts error (some token)))
      (Refusal worker queue
        (.failUndecodableTask taskId worker lockAt attempts error
          (some token))) := by
  apply fenced_query
  intro env db hpasses
  cases hget : db.jobs.get? taskId with
  | none =>
      refine ⟨none, exec_of_plan_nil ?_, rfl⟩
      simp [Stmt.plan, hget]
  | some row =>
      have hqueue : row.jobType = queue := by
        by_contra hne
        exact hpasses ⟨rfl, row, hget, hne⟩
      refine ⟨some queue, exec_of_plan_nil ?_, ?_⟩
      · simp [Stmt.plan, hget, hqueue]
      · apply workerRegistration_fenced
        · rfl
        · rfl

theorem keepAlive_fenced :
    (program rows (.keepAlive worker queue token)).Fenced sql
      (passesFence worker queue token (.keepAlive worker queue token))
      (Refusal worker queue (.keepAlive worker queue token)) := by
  apply fenced_query
  intro env db hpasses
  refine ⟨0, exec_of_plan_nil ?_, ⟨_, rfl⟩⟩
  cases hget : db.workers.get? (worker, queue) with
  | none => simp [Stmt.plan, hget]
  | some row =>
      have htoken : row.leaseToken ≠ some token :=
        fun heq => hpasses ⟨rfl, rfl, rfl, row, hget, heq⟩
      simp [Stmt.plan, hget, htoken]

theorem releaseWorker_fenced :
    (program rows (.releaseWorker queue worker token)).Fenced sql
      (passesFence worker queue token (.releaseWorker queue worker token))
      (Refusal worker queue (.releaseWorker queue worker token)) := by
  apply fenced_query
  intro env db hpasses
  refine ⟨false, exec_of_plan_nil ?_, ⟨_, rfl⟩⟩
  simp only [Stmt.plan, Except.ok.injEq, Prod.mk.injEq, and_true]
  exact any_token_lost fun hcarries => hpasses ⟨rfl, rfl, rfl, hcarries⟩

/-- Every operation that presents the token stands behind the fence. -/
theorem Presents.fenced {trace : List (Ran sql)}
    (h : Presents worker queue token op trace) :
    (program rows op).Fenced sql (passesFence worker queue token op)
      (Refusal worker queue op) := by
  cases h with
  | fetchNext | queueById =>
      apply workerRegistration_fenced
      · exact ⟨_, rfl⟩
      · exact ⟨_, rfl⟩
  | startTask hworker hqueue htoken =>
      exact startTask_fenced hworker hqueue htoken
  | acknowledge hupdate hworker hqueue htoken =>
      exact acknowledge_fenced hupdate hworker hqueue htoken
  | failUndecodableTask _ => exact failUndecodableTask_fenced _ _ _ _
  | keepAlive => exact keepAlive_fenced
  | releaseWorker => exact releaseWorker_fenced

theorem Presents.mono {before later : List (Ran sql)}
    (h : Presents worker queue token op later) (hwithin : before <+: later) :
    Presents worker queue token op before := by
  cases h with
  | fetchNext => exact .fetchNext
  | queueById => exact .queueById
  | startTask hworker hqueue htoken => exact .startTask hworker hqueue htoken
  | acknowledge hupdate hworker hqueue htoken =>
      exact .acknowledge hupdate hworker hqueue htoken
  | failUndecodableTask hlocated =>
      refine .failUndecodableTask ?_
      intro item hitem
      exact hlocated item (hwithin.subset hitem)
  | keepAlive => exact .keepAlive
  | releaseWorker => exact .releaseWorker

theorem Presents.located {trace : List (Ran sql)}
    (h : Presents worker queue token op trace) (hlooks : op.looksUp = true) :
    LocatedIn queue trace := by
  cases h with
  | failUndecodableTask hlocated => exact hlocated
  | _ => cases hlooks

/-- A check that finds the token has locked the registration. -/
theorem passesFence_locked {item : Ran sql} (hview : item.view = item.base)
    (h : passesFence worker queue token op item.stmt item.base) :
    (Carries item.base worker queue token ∧
      ∃ lock ∈ rowLocks.acquires item,
        lock.1 = .registration worker queue) ∨
      (op.looksUp = true ∧ ∃ id scope row, item.stmt = .taskQueue id scope ∧
        item.view.jobs.get? id = some row ∧ row.jobType ≠ queue) := by
  obtain ⟨stmt, env, base, view, result, changes, hexec⟩ := item
  dsimp only at hview h ⊢
  subst hview
  cases stmt with
  | workerRegistration named scope presented =>
      obtain ⟨rfl, rfl, row, hrow, htoken⟩ := h
      refine Or.inl ⟨⟨row, hrow, htoken⟩, (_, .keyShare), ?_, rfl⟩
      apply List.mem_append_left
      simp [statementLocks, hrow]
  | startTask claim =>
      obtain ⟨rfl, rfl, hclaim, row, hrow, htoken⟩ := h
      refine Or.inl ⟨⟨row, hrow, htoken⟩, (_, .keyShare), ?_, rfl⟩
      apply List.mem_append_left
      simp [statementLocks, hrow, hclaim, tokenAccepted, htoken]
  | lockForRelease named scope presented =>
      obtain ⟨rfl, rfl, rfl, row, hrow, htoken⟩ := h
      have hplan := (exec_ok hexec).1
      simp only [Stmt.plan, hrow, Option.any_some, htoken, decide_true,
        Except.ok.injEq, Prod.mk.injEq] at hplan
      obtain ⟨rfl, _⟩ := hplan
      exact Or.inl ⟨⟨row, hrow, htoken⟩, (_, .update),
        List.mem_append_left _ List.mem_cons_self, rfl⟩
  | keepAlive named scope presented =>
      obtain ⟨rfl, rfl, rfl, row, hrow, htoken⟩ := h
      have hplan := (exec_ok hexec).1
      simp only [Stmt.plan, hrow, htoken, ↓reduceIte, Except.ok.injEq,
        Prod.mk.injEq] at hplan
      obtain ⟨_, rfl⟩ := hplan
      have hkey : (renewedRow env.now row).key = (named, scope) :=
        (Table.key_of_get? hrow :)
      refine Or.inl ⟨⟨row, hrow, htoken⟩, (_, .noKeyUpdate), ?_, rfl⟩
      apply List.mem_append_right
      simp [putWorker, changeLocks, hkey]
  | taskQueue id scope =>
      obtain ⟨hlooks, row, hrow, hqueue⟩ := h
      exact Or.inr ⟨hlooks, id, scope, row, rfl, hrow, hqueue⟩
  | _ => exact h.elim

/-- The operation registers the name with the token. -/
def Op.registers (worker queue token : String) : Op → Bool
  | .registerWorker named scope _ _ presented _ =>
      named = worker && scope = queue && presented = token
  | _ => false

/-- The event does not commit a registration of the name by the token. -/
def notRegistering (worker queue token : String) (server : PgServer) :
    PgEvent → Bool
  | .finish index => (server.sessions[index]?).all fun session =>
      !(session.stage.isCommitting && session.op.registers worker queue token)
  | _ => true

/-- Only a registration by the token makes a registration carry it. -/
theorem lost_step {server after : PgServer} {event : PgEvent}
    (h : (pgServer rows).Reachable server)
    (hlost : ¬ Carries server.db worker queue token)
    (hmoves : server.Moves rowLocks (program rows) event after)
    (hspares : notRegistering worker queue token server event = true) :
    ¬ Carries after.db worker queue token := by
  rcases hmoves.db_cases with hsame |
    ⟨index, session, value, rfl, hsession, hstage, hdb, _, _⟩
  · rwa [hsame]
  · rw [hdb]
    rintro ⟨row, hrow, htoken⟩
    have hrunning : session.stage.isRunning = true := by rw [hstage]; rfl
    rcases registration_cases h hsession hrunning (worker, queue) with
      ⟨_, hsame⟩ | ⟨before, item, change, hkey, hwrite⟩
    · exact hlost ⟨row, hsame.symm.trans hrow, htoken⟩
    · have hread := hwrite.before_eq
      have hafter := hwrite.after_eq
      rw [hkey] at hread hafter
      have hleft : change.after = some row := hafter.symm.trans hrow
      have hstep := hwrite.step
      have hordered := hwrite.ordered
      clear hwrite
      obtain ⟨stmt, env, base, view, result, changes, hexec⟩ := item
      cases hstep with
      | @register named scope storage layers presented =>
          obtain ⟨rfl, rfl⟩ := Prod.mk.inj hkey
          obtain ⟨_, _, staleAfter, hop, _⟩ := hordered
          have hpresented : presented = token := by
            have hwritten := Option.some.inj hleft
            rw [← hwritten] at htoken
            cases hold : view.workers.get? (named, scope) with
            | none => simpa [registeredRow, hold] using htoken
            | some old => simpa [registeredRow, hold] using htoken
          simp [notRegistering, hsession, hstage, Stage.isCommitting, hop,
            Op.registers, hpresented] at hspares
      | heartbeat hold _ =>
          obtain ⟨rfl, rfl⟩ := Prod.mk.inj hkey
          obtain rfl := Option.some.inj hleft
          exact hlost ⟨_, hread.symm.trans hold, htoken⟩
      | release _ =>
          obtain rfl := Option.some.inj hleft
          cases htoken
      | @admin named scope =>
          obtain ⟨rfl, rfl⟩ := Prod.mk.inj hkey
          obtain rfl := Option.some.inj hleft
          cases hold : view.workers.get? (named, scope) with
          | none => simp [adminRow, hold] at htoken
          | some old =>
              refine hlost ⟨old, hread.symm.trans hold, ?_⟩
              simpa [adminRow, hold] using htoken
      | prune _ _ _ _ => cases hleft

/-- Every session that presents the token and had not ended when the
registration lost it stands behind the fence. -/
def FencedOff (worker queue token : String) (start server : PgServer) :
    Prop :=
  ∀ (index : Nat) (session : PgSession),
    server.sessions[index]? = some session →
    (∀ old, start.sessions[index]? = some old →
      old.stage.isRunning = true) →
    Presents worker queue token session.op session.trace →
    session.Behind (passesFence worker queue token session.op)
      (Refusal worker queue session.op)

/-- A session that found the token before keeps its registration from being
taken, so none has when the token is lost. -/
theorem fencedOff_start {server : PgServer}
    (h : (pgServer rows).Reachable server)
    (hlost : ¬ Carries server.db worker queue token) :
    FencedOff worker queue token server server := by
  intro index session hsession hrun hpresents
  have hrunning := hrun session hsession
  rcases Server.reachable_fenced hpresents.fenced h hsession rfl hrunning with
    ⟨before, item, hissued, hpasses, hview⟩ | hbehind
  · rcases passesFence_locked hview hpasses with
      ⟨hcarries, lock, hlock, hregistration⟩ |
      ⟨hlooks, id, scope, row, hstmt, hrow, hqueue⟩
    · have hheld : lock ∈ rowLocks.held (before ++ [item]) :=
        List.mem_flatMap.mpr ⟨item, by simp, hlock⟩
      exact absurd ((carries_guarded worker queue token).stable h hsession
        hrunning hissued hheld hregistration hcarries) hlost
    · have hitem : item ∈ session.trace := hissued.subset (by simp)
      exact absurd
        (hpresents.located hlooks item hitem id scope row hstmt hrow) hqueue
  · exact hbehind

/-- Without the token nobody gets past the fence. -/
theorem FencedOff.step {start server after : PgServer} {event : PgEvent}
    (h : FencedOff worker queue token start server)
    (hlost : ¬ Carries server.db worker queue token)
    (hmoves : server.Moves rowLocks (program rows) event after) :
    FencedOff worker queue token start after := by
  intro index session hsession hrun hpresents
  rcases hmoves.sessions hsession with
    hold | ⟨_, op, rfl⟩ | ⟨old, hold, hadvances⟩
  · exact h index session hold hrun hpresents
  · exact ⟨rfl, hpresents.fenced⟩
  · rw [hadvances.op_eq] at hpresents ⊢
    have hbehind := h index old hold hrun
      (hpresents.mono hadvances.trace_prefix)
    -- the only check that can pass now is a lookup, and it never fails
    have hlookup : ∀ {stmt : Stmt},
        passesFence worker queue token old.op stmt server.db →
        ∃ id scope, stmt = .taskQueue id scope := by
      intro stmt hpasses
      cases stmt with
      | workerRegistration => exact absurd hpasses.2.2 hlost
      | startTask => exact absurd hpasses.2.2.2 hlost
      | lockForRelease => exact absurd hpasses.2.2.2 hlost
      | keepAlive => exact absurd hpasses.2.2.2 hlost
      | taskQueue id scope => exact ⟨id, scope, rfl⟩
      | _ => exact hpasses.elim
    have hfaults : ∀ {stmt : Stmt} {env : Env} {fault : DieselError},
        sql.exec stmt env server.db = .error fault →
        ¬ passesFence worker queue token old.op stmt server.db := by
      intro stmt env fault hexec hpasses
      obtain ⟨id, scope, rfl⟩ := hlookup hpasses
      have hok : (Stmt.taskQueue id scope).exec env server.db = .ok _ :=
        exec_of_plan_nil rfl
      rw [show sql.exec (Stmt.taskQueue id scope) env server.db = _ from hok]
        at hexec
      cases hexec
    rcases hbehind.advance hadvances hfaults with
      ⟨item, hitem, hpasses, hview⟩ | hnext
    · obtain ⟨id, scope, hstmt⟩ := hlookup hpasses
      rw [hstmt] at hpasses
      obtain ⟨hlooks, row, hrow, hqueue⟩ := hpasses
      exact absurd (hpresents.located hlooks item hitem id scope row hstmt
        (by rwa [hview])) hqueue
    · exact hnext

/-- Once a registration carries a token no more, and as long as the token does
not register again, no operation that presents it changes a row, and each one
that completes reports its refusal. -/
theorem token_fenced {server after : PgServer}
    (h : (pgServer rows).Reachable server)
    (hlost : ¬ Carries server.db worker queue token)
    (hrun : (pgServer rows).FollowsWhere
      (fun state event => notRegistering worker queue token state event = true)
      server after) {index : Nat} {session : PgSession}
    (hsession : after.sessions[index]? = some session)
    (hlate : ∀ old, server.sessions[index]? = some old →
      old.stage.isRunning = true)
    (hpresents : Presents worker queue token session.op session.trace) :
    session.pending = [] ∧
      (∀ value, session.stage = .committed value →
        Refusal worker queue session.op (.ok value)) ∧
      (∀ error, session.stage = .refused error →
        Refusal worker queue session.op (.error error)) := by
  have hinv : (pgServer rows).Reachable after ∧
      ¬ Carries after.db worker queue token ∧
      FencedOff worker queue token server after := by
    apply hrun.invariant fun state => (pgServer rows).Reachable state ∧
      ¬ Carries state.db worker queue token ∧
      FencedOff worker queue token server state
    · rintro state next event ⟨hreachable, hgone, hfenced⟩ hspares hevent
      have hmoves := Server.step_cases hevent
      exact ⟨hreachable.step hevent, lost_step hreachable hgone hmoves hspares,
        hfenced.step hgone hmoves⟩
    · exact ⟨h, hlost, fencedOff_start h hlost⟩
  obtain ⟨hpending, hstage⟩ := hinv.2.2 index session hsession hlate hpresents
  refine ⟨hpending, ?_, ?_⟩
  · intro value hcommitted
    rw [hcommitted] at hstage
    exact hstage
  · intro error hrefused
    rw [hrefused] at hstage
    exact hstage

/-- A fetch begun before the worker released its registration checks the token
after it. -/
theorem token_fenced_released :
    let env : Env := quietEnv 0
    let released : List PgEvent := [
      .begin (.registerWorker "worker" "queue" storageName "" "token" 30),
      .statement 0 env, .statement 0 env, .statement 0 env, .finish 0,
      .begin (.fetchNext "worker" "queue" 10 (some "token")),
      .begin (.releaseWorker "queue" "worker" "token"),
      .statement 2 env, .statement 2 env, .statement 2 env, .finish 2]
    let fetched : List PgEvent := [.statement 1 env, .finish 1]
    let server := ((pgServer .copying).run idleServer released).getD idleServer
    let after := ((pgServer .copying).runWhere
      (notRegistering "worker" "queue" "token") server fetched).getD idleServer
    ∃ session, after.sessions[1]? = some session ∧
      session.trace.length = 1 ∧ session.stage.isRunning = false ∧
      session.pending = [] ∧
      (∀ value, session.stage = .committed value →
        Refusal "worker" "queue" session.op (.ok value)) ∧
      (∀ error, session.stage = .refused error →
        Refusal "worker" "queue" session.op (.error error)) := by
  intro env released fetched server after
  have hserver : (pgServer .copying).Reachable server :=
    ⟨idleServer, rfl, Machine.follows_of_run released
      (Machine.run_eq_getD idleServer (by decide +kernel))⟩
  have hafter : (pgServer .copying).FollowsWhere
      (fun state event =>
        notRegistering "worker" "queue" "token" state event = true)
      server after :=
    Machine.followsWhere_of_run fetched
      (Machine.runWhere_eq_getD idleServer (by decide +kernel))
  have hlost : ¬ Carries server.db "worker" "queue" "token" := by
    rintro ⟨row, hrow, htoken⟩
    have hfree : (server.db.workers.get? ("worker", "queue")).map
        WorkerRow.leaseToken = some none := by decide +kernel
    rw [hrow] at hfree
    rw [Option.some.inj hfree] at htoken
    cases htoken
  have hlate : ∀ old, server.sessions[1]? = some old →
      old.stage.isRunning = true := by
    intro old hold
    have hrunning : (server.sessions[1]?).map (·.stage.isRunning) =
        some true := by decide +kernel
    rw [hold] at hrunning
    exact Option.some.inj hrunning
  have hends : (after.sessions[1]?).map (fun session =>
      (session.trace.length, session.stage.isRunning,
        match session.op with
        | .fetchNext worker queue _ token =>
            decide (worker = "worker" ∧ queue = "queue" ∧ token = some "token")
        | _ => false)) = some (1, false, true) := by decide +kernel
  obtain ⟨session, hsession, hfacts⟩ := Option.map_eq_some_iff.mp hends
  simp only [Prod.mk.injEq] at hfacts
  have hpresents : Presents "worker" "queue" "token" session.op
      session.trace := by
    cases hop : session.op with
    | fetchNext worker queue bufferSize token =>
        rw [hop] at hfacts
        obtain ⟨rfl, rfl, rfl⟩ := of_decide_eq_true hfacts.2.2
        exact .fetchNext
    | _ =>
        rw [hop] at hfacts
        cases hfacts.2.2
  exact ⟨session, hsession, hfacts.1, hfacts.2.1,
    token_fenced hserver hlost hafter hsession hlate hpresents⟩

end ApalisPostgres
