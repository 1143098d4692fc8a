/-
Blocking calls.  Every query of the crate runs in a closure that
`run_blocking` hands to the blocking pool of the runtime it finds.  The
caller's future may be dropped at any point; an acknowledgement or a flush
must then still be carried out.  On an ntex system the closure is therefore
submitted by a task of its own, which holds the receiver the pool looks at and
forwards the result over a second channel.
-/
import ApalisPostgres.EventMachine
import ApalisPostgres.Operations

namespace ApalisPostgres.Runtime

open RowStore

/-- The runtime features of a build. -/
structure Features where
  tokio : Bool
  ntex : Bool
deriving Repr, DecidableEq

/-- What the thread that first polls a call has entered. -/
structure Entered where
  tokio : Bool
  system : Bool
deriving Repr, DecidableEq

/-- How a closure is run: by tokio's `spawn_blocking`, in place, or by a
detached task that submits it to the ntex pool. -/
inductive Path where
  | tokio
  | inline
  | detached
deriving Repr, DecidableEq

/-- The choice of `run_blocking_ntex`. -/
def ntexPath (entered : Entered) : Path :=
  if entered.system then .detached else .inline

/-- The choice of `run_blocking`.  Without a runtime feature the crate does
not compile, and tokio alone needs its runtime entered. -/
def blockingPath (features : Features) (entered : Entered) : Option Path :=
  if features.tokio then
    if features.ntex && !entered.tokio then some (ntexPath entered)
    else if entered.tokio then some .tokio
    else none
  else if features.ntex then some (ntexPath entered)
  else none

/-- How a closure ended. -/
inductive WorkEnd where
  | returned (result : Except Error Outcome)
  | panicked

/-- What a closure of `with_conn` meets: no connection, a connection for its
transaction, or a panic. -/
inductive ClosureEnd where
  | checkout (message : String)
  | transaction (env : Nat → Env)
  | panic

/-- The caller's future. -/
inductive Caller where
  | unpolled
  | waiting
  | resolved (result : Except Error Outcome)
  | dropped

/-- The detached task: it submits the closure on its first poll and holds the
pool's receiver from then on. -/
inductive Forwarder where
  | absent
  | spawned
  | awaiting
  | finished
  | tornDown
deriving Repr, DecidableEq

/-- The closure in the pool; `discarded` is a closure that never runs. -/
inductive Job where
  | absent
  | queued
  | running
  | finished (stop : WorkEnd)
  | discarded

/-- One call of `run_blocking`.  `channel` is what the detached task sent. -/
structure BlockingCall where
  path : Option Path
  caller : Caller
  forwarder : Forwarder
  job : Job
  channel : Option WorkEnd

def BlockingCall.new : BlockingCall := ⟨none, .unpolled, .absent, .absent, none⟩

/-- The texts of the foreign errors that `Error::Blocking` wraps. -/
structure JoinTexts where
  panicked : String
  discarded : String
  canceled : String

/-- The database, the call, how often its closure was entered, and where its
transactions are in the record of the database. -/
structure BlockingRun where
  system : System
  call : BlockingCall
  entered : Nat
  written : List Nat

def BlockingRun.start (system : System) : BlockingRun := ⟨system, .new, 0, []⟩

inductive BlockingEvent where
  /-- the caller's future is polled; `stop` is the closure's end in place -/
  | poll (entered : Entered) (stop : ClosureEnd)
  | drop
  /-- the detached task is polled -/
  | forward
  /-- a thread of the pool takes the closure out of the queue -/
  | pick
  | finish (stop : ClosureEnd)
  /-- the arbiter, or the tokio runtime, is shut down -/
  | teardown
  /-- another actor's transaction -/
  | other (invocation : Invocation)

section

variable (rows : TaskConversion) (features : Features) (texts : JoinTexts)
  (op : Op)

/-- What the awaiting side makes of the end of the closure: its own result,
or the join error. -/
def WorkEnd.joined : WorkEnd → Except Error Outcome
  | .returned result => result
  | .panicked => .error (.blocking texts.panicked)

/-- The closure of `with_conn` around one transaction. -/
def BlockingRun.perform (run : BlockingRun) : ClosureEnd → BlockingRun × WorkEnd
  | .checkout message => (run, .returned (.error (.pool message)))
  | .panic => (run, .panicked)
  | .transaction env =>
      ({ run with
          system := run.system.step rows ⟨op, env⟩
          written := run.written ++ [run.system.commits.length] },
        .returned (run.system.execute rows ⟨op, env⟩).outcome)

/-- A later poll of the caller: it looks at the join handle of its closure,
or, `resolve_forwarded_result`, at the forwarding channel. -/
def BlockingCall.polled (call : BlockingCall) : BlockingCall :=
  match call.path, call.job, call.channel, call.forwarder with
  | some .tokio, .finished stop, _, _ =>
      { call with caller := .resolved (stop.joined texts) }
  | some .tokio, .discarded, _, _ =>
      { call with caller := .resolved (.error (.blocking texts.discarded)) }
  | some .detached, _, some stop, _ =>
      { call with caller := .resolved (stop.joined texts) }
  | some .detached, _, none, .tornDown =>
      { call with caller := .resolved (.error (.blocking texts.canceled)) }
  | _, _, _, _ => call

/-- The first poll.  Where a submitted closure waits is documented by its
runtime; a closure that panics in place unwinds through the caller's own poll,
and the run ends there. -/
def BlockingRun.submit (run : BlockingRun) (stop : ClosureEnd) :
    Path → Option BlockingRun
  | .tokio => some { run with
      call := ⟨some .tokio, .waiting, .absent, .queued, none⟩ }
  | .detached => some { run with
      call := ⟨some .detached, .waiting, .spawned, .absent, none⟩ }
  | .inline =>
      match stop with
      | .panic => none
      | _ =>
          let performed := run.perform rows op stop
          some { performed.1 with
            call := ⟨some .inline, .resolved (performed.2.joined texts),
              .absent, .finished performed.2, none⟩
            entered := run.entered + 1 }

/-- A thread of the pool meets the queued closure.  As its runtime documents,
the tokio pool runs it whoever waits, and the ntex pool skips a closure whose
receiver is gone. -/
def BlockingRun.picked (run : BlockingRun) : BlockingRun :=
  if run.call.path = some .detached ∧ run.call.forwarder ≠ .awaiting then
    { run with call := { run.call with job := .discarded } }
  else
    { run with
      call := { run.call with job := .running }
      entered := run.entered + 1 }

/-- The detached task's send; a receiver that was dropped takes nothing. -/
def BlockingCall.sent (call : BlockingCall) (stop : WorkEnd) : BlockingCall :=
  { call with
    forwarder := .finished
    channel := match call.caller with
      | .dropped => none
      | _ => some stop }

def BlockingRun.step (run : BlockingRun) : BlockingEvent → Option BlockingRun
  | .poll entered stop =>
      match run.call.caller with
      | .unpolled => (blockingPath features entered).bind
          (run.submit rows texts op stop)
      | .waiting => some { run with call := run.call.polled texts }
      | _ => none
  | .drop =>
      match run.call.caller with
      | .unpolled | .waiting =>
          some { run with call := { run.call with caller := .dropped } }
      | _ => none
  | .forward =>
      match run.call.forwarder, run.call.job with
      | .spawned, _ => some { run with
          call := { run.call with forwarder := .awaiting, job := .queued } }
      | .awaiting, .finished stop =>
          some { run with call := run.call.sent stop }
      | _, _ => none
  | .pick =>
      match run.call.job with
      | .queued => some run.picked
      | _ => none
  | .finish stop =>
      match run.call.job with
      | .running =>
          let performed := run.perform rows op stop
          some { performed.1 with
            call := { run.call with job := .finished performed.2 } }
      | _ => none
  | .teardown =>
      match run.call.path, run.call.forwarder, run.call.job with
      | some .detached, .spawned, _ | some .detached, .awaiting, _ =>
          some { run with
            call := { run.call with forwarder := .tornDown } }
      | some .tokio, _, .queued =>
          some { run with call := { run.call with job := .discarded } }
      | _, _, _ => none
  | .other invocation =>
      some { run with system := run.system.step rows invocation }

def machine : Machine BlockingRun BlockingEvent where
  Initial run := ∃ system, run = .start system
  step := BlockingRun.step rows features texts op

end

/-- A polled caller that may still come by its result, or never wants it. -/
inductive Caller.Open : Caller → Prop where
  | waiting : Open .waiting
  | dropped : Open .dropped

/-- The caller is open or was told `result`. -/
def Caller.Told (caller : Caller) (result : Except Error Outcome) : Prop :=
  caller.Open ∨ caller = .resolved result

/-- The phases of a call: whether a shutdown cut it off, its state, and how
often its closure was entered by then. -/
inductive Phase (texts : JoinTexts) : Bool → BlockingCall → Nat → Prop where
  | unpolled : Phase texts false .new 0
  | abandoned : Phase texts false ⟨none, .dropped, .absent, .absent, none⟩ 0
  | inline (stop : WorkEnd) :
      Phase texts false ⟨some .inline, .resolved (stop.joined texts), .absent,
        .finished stop, none⟩ 1
  | tokioQueued {caller : Caller} (hopen : caller.Open) :
      Phase texts false ⟨some .tokio, caller, .absent, .queued, none⟩ 0
  | tokioRunning {caller : Caller} (hopen : caller.Open) :
      Phase texts false ⟨some .tokio, caller, .absent, .running, none⟩ 1
  | tokioFinished {caller : Caller} (stop : WorkEnd)
      (htold : caller.Told (stop.joined texts)) :
      Phase texts false ⟨some .tokio, caller, .absent, .finished stop, none⟩ 1
  | tokioDiscarded {caller : Caller}
      (htold : caller.Told (.error (.blocking texts.discarded))) :
      Phase texts true ⟨some .tokio, caller, .absent, .discarded, none⟩ 0
  | spawned {caller : Caller} (hopen : caller.Open) :
      Phase texts false ⟨some .detached, caller, .spawned, .absent, none⟩ 0
  | queued {caller : Caller} (hopen : caller.Open) :
      Phase texts false ⟨some .detached, caller, .awaiting, .queued, none⟩ 0
  | running {caller : Caller} (hopen : caller.Open) :
      Phase texts false ⟨some .detached, caller, .awaiting, .running, none⟩ 1
  | answered {caller : Caller} (stop : WorkEnd) (hopen : caller.Open) :
      Phase texts false ⟨some .detached, caller, .awaiting, .finished stop,
        none⟩ 1
  | unwanted (stop : WorkEnd) :
      Phase texts false ⟨some .detached, .dropped, .finished, .finished stop,
        none⟩ 1
  | forwarded {caller : Caller} (stop : WorkEnd)
      (htold : caller.Told (stop.joined texts)) :
      Phase texts false ⟨some .detached, caller, .finished, .finished stop,
        some stop⟩ 1
  | tornUnrun {caller : Caller} {job : Job}
      (hjob : job = .absent ∨ job = .queued ∨ job = .discarded)
      (htold : caller.Told (.error (.blocking texts.canceled))) :
      Phase texts true ⟨some .detached, caller, .tornDown, job, none⟩ 0
  | tornRun {caller : Caller} {job : Job}
      (hjob : job = .running ∨ ∃ stop, job = .finished stop)
      (htold : caller.Told (.error (.blocking texts.canceled))) :
      Phase texts true ⟨some .detached, caller, .tornDown, job, none⟩ 1

section

variable {rows : TaskConversion} {features : Features} {texts : JoinTexts}
  {op : Op} {run after : BlockingRun} {torn : Bool}

/-- A poll after the first tells an open caller what there is to tell. -/
theorem Phase.polled (h : Phase texts torn run.call run.entered)
    (hwaiting : run.call.caller = .waiting) :
    Phase texts torn (run.call.polled texts) run.entered := by
  obtain ⟨system, call, entered, written⟩ := run
  cases h with
  | unpolled | abandoned | inline stop | unwanted stop => cases hwaiting
  | tokioQueued hopen => exact .tokioQueued hopen
  | tokioRunning hopen => exact .tokioRunning hopen
  | tokioFinished stop _ => exact .tokioFinished stop (Or.inr rfl)
  | tokioDiscarded _ => exact .tokioDiscarded (Or.inr rfl)
  | spawned hopen => exact .spawned hopen
  | queued hopen => exact .queued hopen
  | running hopen => exact .running hopen
  | answered stop hopen => exact .answered stop hopen
  | forwarded stop _ => exact .forwarded stop (Or.inr rfl)
  | tornUnrun hjob _ =>
      rcases hjob with rfl | rfl | rfl
      · exact .tornUnrun (Or.inl rfl) (Or.inr rfl)
      · exact .tornUnrun (Or.inr (Or.inl rfl)) (Or.inr rfl)
      · exact .tornUnrun (Or.inr (Or.inr rfl)) (Or.inr rfl)
  | tornRun hjob _ =>
      rcases hjob with rfl | ⟨stop, rfl⟩
      · exact .tornRun (Or.inl rfl) (Or.inr rfl)
      · exact .tornRun (Or.inr ⟨stop, rfl⟩) (Or.inr rfl)

/-- Dropping the caller changes nothing but who hears the result. -/
theorem Phase.dropped (h : Phase texts torn run.call run.entered)
    (hcaller : run.call.caller = .unpolled ∨ run.call.caller = .waiting) :
    Phase texts torn { run.call with caller := .dropped } run.entered := by
  obtain ⟨system, call, entered, written⟩ := run
  cases h with
  | unpolled => exact .abandoned
  | abandoned => exact .abandoned
  | inline stop => rcases hcaller with hcaller | hcaller <;> cases hcaller
  | unwanted stop => exact .unwanted stop
  | tokioQueued _ => exact .tokioQueued .dropped
  | tokioRunning _ => exact .tokioRunning .dropped
  | tokioFinished stop _ => exact .tokioFinished stop (Or.inl .dropped)
  | tokioDiscarded _ => exact .tokioDiscarded (Or.inl .dropped)
  | spawned _ => exact .spawned .dropped
  | queued _ => exact .queued .dropped
  | running _ => exact .running .dropped
  | answered stop _ => exact .answered stop .dropped
  | forwarded stop _ => exact .forwarded stop (Or.inl .dropped)
  | tornUnrun hjob _ => exact .tornUnrun hjob (Or.inl .dropped)
  | tornRun hjob _ => exact .tornRun hjob (Or.inl .dropped)

/-- The first poll chooses the path. -/
theorem Phase.submitted (h : Phase texts torn run.call run.entered)
    (hcaller : run.call.caller = .unpolled) {stop : ClosureEnd} {path : Path}
    (hsubmit : run.submit rows texts op stop path = some after) :
    torn = false ∧ Phase texts false after.call after.entered := by
  obtain ⟨system, call, entered, written⟩ := run
  have hnew : torn = false ∧ call = .new ∧ entered = 0 := by
    cases h with
    | unpolled => exact ⟨rfl, rfl, rfl⟩
    | abandoned | inline _ | unwanted _ => cases hcaller
    | tokioQueued hopen | tokioRunning hopen | spawned hopen | queued hopen
    | running hopen | answered _ hopen =>
        cases hopen <;> cases hcaller
    | tokioFinished _ htold | tokioDiscarded htold | forwarded _ htold
    | tornUnrun _ htold | tornRun _ htold =>
        rcases htold with hopen | htold
        · cases hopen <;> cases hcaller
        · cases htold.symm.trans hcaller
  obtain ⟨rfl, rfl, rfl⟩ := hnew
  refine ⟨rfl, ?_⟩
  cases path with
  | tokio =>
      cases hsubmit
      exact .tokioQueued .waiting
  | detached =>
      cases hsubmit
      exact .spawned .waiting
  | inline =>
      cases stop with
      | panic => cases hsubmit
      | checkout message | transaction env =>
          cases hsubmit
          exact .inline _

/-- A thread of the pool enters a closure that was not entered before. -/
theorem Phase.picked (h : Phase texts torn run.call run.entered)
    (hqueued : run.call.job = .queued) :
    Phase texts torn run.picked.call run.picked.entered := by
  obtain ⟨system, call, entered, written⟩ := run
  cases h with
  | unpolled | abandoned | inline _ | unwanted _ | tokioRunning _
  | tokioFinished _ _ | tokioDiscarded _ | spawned _ | running _
  | answered _ _ | forwarded _ _ => cases hqueued
  | tokioQueued hopen => exact .tokioRunning hopen
  | queued hopen => exact .running hopen
  | tornUnrun hjob htold => exact .tornUnrun (Or.inr (Or.inr rfl)) htold
  | tornRun hjob htold =>
      rcases hjob with rfl | ⟨stop, rfl⟩ <;> cases hqueued

/-- A running closure ends. -/
theorem Phase.finished (h : Phase texts torn run.call run.entered)
    (hrunning : run.call.job = .running) (stop : WorkEnd) :
    Phase texts torn { run.call with job := .finished stop } run.entered := by
  obtain ⟨system, call, entered, written⟩ := run
  cases h with
  | unpolled | abandoned | inline _ | unwanted _ | tokioQueued _
  | tokioFinished _ _ | tokioDiscarded _ | spawned _ | queued _
  | answered _ _ | forwarded _ _ => cases hrunning
  | tokioRunning hopen => exact .tokioFinished stop (Or.inl hopen)
  | running hopen => exact .answered stop hopen
  | tornUnrun hjob htold =>
      rcases hjob with rfl | rfl | rfl <;> cases hrunning
  | tornRun hjob htold => exact .tornRun (Or.inr ⟨stop, rfl⟩) htold

def BlockingEvent.isTeardown : BlockingEvent → Bool
  | .teardown => true
  | _ => false

/-- The detached task is polled: it submits, or it forwards. -/
theorem Phase.forwards (h : Phase texts torn run.call run.entered)
    (hstep : run.step rows features texts op .forward = some after) :
    Phase texts torn after.call after.entered := by
  obtain ⟨system, call, entered, written⟩ := run
  cases h with
  | unpolled | abandoned | inline _ | unwanted _ | tokioQueued _
  | tokioRunning _ | tokioFinished _ _ | tokioDiscarded _ | queued _
  | running _ | forwarded _ _ | tornUnrun _ _ | tornRun _ _ => cases hstep
  | spawned hopen =>
      cases hstep
      exact .queued hopen
  | answered stop hopen =>
      cases hopen with
      | waiting =>
          cases hstep
          exact .forwarded stop (Or.inl .waiting)
      | dropped =>
          cases hstep
          exact .unwanted stop

/-- A shutdown cuts off what has not run yet. -/
theorem Phase.tornDown (h : Phase texts torn run.call run.entered)
    (hstep : run.step rows features texts op .teardown = some after) :
    Phase texts true after.call after.entered := by
  obtain ⟨system, call, entered, written⟩ := run
  cases h with
  | unpolled | abandoned | inline _ | unwanted _ | tokioRunning _
  | tokioFinished _ _ | tokioDiscarded _ | forwarded _ _ | tornUnrun _ _
  | tornRun _ _ => cases hstep
  | tokioQueued hopen =>
      cases hstep
      exact .tokioDiscarded (Or.inl hopen)
  | spawned hopen =>
      cases hstep
      exact .tornUnrun (Or.inl rfl) (Or.inl hopen)
  | queued hopen =>
      cases hstep
      exact .tornUnrun (Or.inr (Or.inl rfl)) (Or.inl hopen)
  | running hopen =>
      cases hstep
      exact .tornRun (Or.inl rfl) (Or.inl hopen)
  | answered stop hopen =>
      cases hstep
      exact .tornRun (Or.inr ⟨stop, rfl⟩) (Or.inl hopen)

theorem BlockingRun.perform_call (run : BlockingRun) (stop : ClosureEnd) :
    (run.perform rows op stop).1.entered = run.entered := by
  cases stop <;> rfl

/-- Every event takes a call from phase to phase. -/
theorem Phase.step {event : BlockingEvent}
    (h : Phase texts torn run.call run.entered)
    (hstep : run.step rows features texts op event = some after) :
    Phase texts (torn || event.isTeardown) after.call after.entered := by
  cases event with
  | poll entered stop =>
      simp only [BlockingEvent.isTeardown, Bool.or_false]
      cases hcaller : run.call.caller with
      | unpolled =>
          simp only [BlockingRun.step, hcaller] at hstep
          obtain ⟨path, _, hsubmit⟩ := Option.bind_eq_some_iff.mp hstep
          obtain ⟨rfl, hphase⟩ := h.submitted hcaller hsubmit
          exact hphase
      | waiting =>
          simp only [BlockingRun.step, hcaller, Option.some.injEq] at hstep
          subst hstep
          exact h.polled hcaller
      | resolved _ | dropped => simp [BlockingRun.step, hcaller] at hstep
  | drop =>
      simp only [BlockingEvent.isTeardown, Bool.or_false]
      cases hcaller : run.call.caller with
      | unpolled =>
          simp only [BlockingRun.step, hcaller, Option.some.injEq] at hstep
          subst hstep
          exact h.dropped (Or.inl hcaller)
      | waiting =>
          simp only [BlockingRun.step, hcaller, Option.some.injEq] at hstep
          subst hstep
          exact h.dropped (Or.inr hcaller)
      | resolved _ | dropped => simp [BlockingRun.step, hcaller] at hstep
  | forward =>
      simp only [BlockingEvent.isTeardown, Bool.or_false]
      exact h.forwards hstep
  | pick =>
      simp only [BlockingEvent.isTeardown, Bool.or_false]
      cases hjob : run.call.job with
      | queued =>
          simp only [BlockingRun.step, hjob, Option.some.injEq] at hstep
          subst hstep
          exact h.picked hjob
      | absent | running | finished _ | discarded =>
          simp [BlockingRun.step, hjob] at hstep
  | finish stop =>
      simp only [BlockingEvent.isTeardown, Bool.or_false]
      cases hjob : run.call.job with
      | running =>
          simp only [BlockingRun.step, hjob, Option.some.injEq] at hstep
          subst hstep
          simp only [BlockingRun.perform_call]
          exact h.finished hjob _
      | absent | queued | finished _ | discarded =>
          simp [BlockingRun.step, hjob] at hstep
  | teardown =>
      simp only [BlockingEvent.isTeardown, Bool.or_true]
      exact h.tornDown hstep
  | other invocation =>
      simp only [BlockingEvent.isTeardown, Bool.or_false]
      cases hstep
      exact h

end

/-- What a finished closure has in the record of the database: its one
transaction with the result it returned, or nothing when it got no connection
or panicked. -/
def Wrote (op : Op) (system : System) (written : List Nat) : WorkEnd → Prop
  | .panicked => written = []
  | .returned result =>
      (written = [] ∧ ∃ message, result = .error (.pool message)) ∨
        ∃ position effects, written = [position] ∧
          system.commits[position]? = some ⟨op, effects, result⟩

/-- The record of the database knows the closure once it has finished, and
not before. -/
structure Recorded (op : Op) (run : BlockingRun) : Prop where
  unwritten : (∀ stop, run.call.job ≠ .finished stop) → run.written = []
  wrote : ∀ stop, run.call.job = .finished stop →
    Wrote op run.system run.written stop

section

variable {rows : TaskConversion} {features : Features} {texts : JoinTexts}
  {op : Op} {run after : BlockingRun} {torn : Bool}

/-- What an event does to the closure: it runs it, or leaves it finished or
not as it was while the record of the database grows. -/
inductive Ran (rows : TaskConversion) (op : Op) (run after : BlockingRun) :
    Prop where
  | performed (stop : ClosureEnd)
      (hbefore : ∀ ends, run.call.job ≠ .finished ends)
      (hsystem : after.system = (run.perform rows op stop).1.system)
      (hwritten : after.written = (run.perform rows op stop).1.written)
      (hjob : after.call.job = .finished (run.perform rows op stop).2)
  | kept (hwritten : after.written = run.written)
      (hsystem : run.system.commits <+: after.system.commits)
      (hjob : ∀ ends, after.call.job = .finished ends ↔
        run.call.job = .finished ends)

/-- The phases in which a closure may be submitted. -/
theorem Phase.not_finished (h : Phase texts torn run.call run.entered)
    (hearly : run.call.caller = .unpolled ∨ run.call.forwarder = .spawned) :
    ∀ stop, run.call.job ≠ .finished stop := by
  obtain ⟨system, call, entered, written⟩ := run
  intro stop hjob
  cases h with
  | unpolled | abandoned | tokioQueued _ | tokioRunning _ | tokioDiscarded _
  | spawned _ | queued _ | running _ => cases hjob
  | inline _ | unwanted _ =>
      rcases hearly with hearly | hearly <;> cases hearly
  | answered _ hopen =>
      rcases hearly with hearly | hearly
      · cases hopen <;> cases hearly
      · cases hearly
  | tokioFinished _ htold | forwarded _ htold | tornUnrun _ htold
  | tornRun _ htold =>
      rcases hearly with hearly | hearly
      · rcases htold with hopen | htold
        · cases hopen <;> cases hearly
        · cases htold.symm.trans hearly
      · cases hearly

theorem BlockingCall.polled_job (call : BlockingCall) :
    (call.polled texts).job = call.job := by
  unfold BlockingCall.polled
  split <;> rfl

theorem BlockingRun.step_ran {event : BlockingEvent}
    (h : Phase texts torn run.call run.entered)
    (hstep : run.step rows features texts op event = some after) :
    Ran rows op run after := by
  cases event with
  | poll entered stop =>
      cases hcaller : run.call.caller with
      | unpolled =>
          have hbefore := h.not_finished (Or.inl hcaller)
          simp only [step, hcaller] at hstep
          obtain ⟨path, _, hsubmit⟩ := Option.bind_eq_some_iff.mp hstep
          cases path with
          | tokio | detached =>
              cases hsubmit
              refine .kept rfl (List.prefix_refl _) ?_
              intro ends
              exact iff_of_false (by simp) (hbefore ends)
          | inline =>
              cases stop with
              | panic => cases hsubmit
              | checkout message =>
                  cases hsubmit
                  exact .performed (.checkout message) hbefore rfl rfl rfl
              | transaction env =>
                  cases hsubmit
                  exact .performed (.transaction env) hbefore rfl rfl rfl
      | waiting =>
          simp only [step, hcaller, Option.some.injEq] at hstep
          subst hstep
          refine .kept rfl (List.prefix_refl _) ?_
          intro ends
          rw [BlockingCall.polled_job]
      | resolved _ | dropped => simp [step, hcaller] at hstep
  | drop =>
      cases hcaller : run.call.caller with
      | unpolled | waiting =>
          simp only [step, hcaller, Option.some.injEq] at hstep
          subst hstep
          exact .kept rfl (List.prefix_refl _) fun _ => Iff.rfl
      | resolved _ | dropped => simp [step, hcaller] at hstep
  | forward =>
      cases hforwarder : run.call.forwarder with
      | spawned =>
          have hbefore := h.not_finished (Or.inr hforwarder)
          simp only [step, hforwarder, Option.some.injEq] at hstep
          subst hstep
          refine .kept rfl (List.prefix_refl _) ?_
          intro ends
          exact iff_of_false (by simp) (hbefore ends)
      | awaiting =>
          cases hjob : run.call.job with
          | finished ends =>
              simp only [step, hforwarder, hjob, Option.some.injEq] at hstep
              subst hstep
              exact .kept rfl (List.prefix_refl _) fun _ => Iff.rfl
          | absent | queued | running | discarded =>
              simp [step, hforwarder, hjob] at hstep
      | absent | finished | tornDown => simp [step, hforwarder] at hstep
  | pick =>
      cases hjob : run.call.job with
      | queued =>
          simp only [step, hjob, Option.some.injEq] at hstep
          subst hstep
          unfold picked
          split
          · exact .kept rfl (List.prefix_refl _) fun ends => by simp [hjob]
          · exact .kept rfl (List.prefix_refl _) fun ends => by simp [hjob]
      | absent | running | finished _ | discarded =>
          simp [step, hjob] at hstep
  | finish stop =>
      cases hjob : run.call.job with
      | running =>
          simp only [step, hjob, Option.some.injEq] at hstep
          subst hstep
          exact .performed stop (fun ends => by simp [hjob]) rfl rfl rfl
      | absent | queued | finished _ | discarded =>
          simp [step, hjob] at hstep
  | teardown =>
      simp only [step] at hstep
      split at hstep
      · cases hstep
        exact .kept rfl (List.prefix_refl _) fun _ => Iff.rfl
      · cases hstep
        exact .kept rfl (List.prefix_refl _) fun _ => Iff.rfl
      · cases hstep
        rename_i hpath hjob
        exact .kept rfl (List.prefix_refl _) fun ends => by simp [hjob]
      · cases hstep
  | other invocation =>
      cases hstep
      exact .kept rfl (List.prefix_append _ _) fun _ => Iff.rfl

/-- A record that grows still has what it had. -/
theorem Wrote.grown {system next : System} {written : List Nat}
    {stop : WorkEnd} (h : Wrote op system written stop)
    (hgrown : system.commits <+: next.commits) : Wrote op next written stop := by
  cases stop with
  | panicked => exact h
  | returned result =>
      rcases h with hnone | ⟨position, effects, hwritten, hcommit⟩
      · exact Or.inl hnone
      · refine Or.inr ⟨position, effects, hwritten, ?_⟩
        obtain ⟨rest, hrest⟩ := hgrown
        obtain ⟨hlt, _⟩ := List.getElem?_eq_some_iff.mp hcommit
        rw [← hrest, List.getElem?_append_left hlt]
        exact hcommit

theorem Recorded.step (h : Recorded op run) (hran : Ran rows op run after) :
    Recorded op after := by
  cases hran with
  | kept hwritten hsystem hjob =>
      refine ⟨?_, ?_⟩
      · intro hnot
        rw [hwritten]
        exact h.unwritten fun stop hstop => hnot stop ((hjob stop).mpr hstop)
      · intro stop hstop
        rw [hwritten]
        exact (h.wrote stop ((hjob stop).mp hstop)).grown hsystem
  | performed stop hbefore hsystem hwritten hjob =>
      have hnone := h.unwritten hbefore
      refine ⟨fun hnot => absurd hjob (hnot _), ?_⟩
      intro ends hends
      cases hjob.symm.trans hends
      rw [hsystem, hwritten]
      cases stop with
      | checkout message => exact Or.inl ⟨hnone, message, rfl⟩
      | panic => exact hnone
      | transaction env =>
          refine Or.inr ⟨run.system.commits.length,
            (run.system.execute rows ⟨op, env⟩).effects, ?_, ?_⟩
          · simp [BlockingRun.perform, hnone]
          · simp only [BlockingRun.perform, System.step_commits]
            exact List.getElem?_concat_length

/-- A call keeps its phase and its record along every run; only a shutdown
cuts it off. -/
structure Carried (texts : JoinTexts) (op : Op) (torn : Bool)
    (run : BlockingRun) : Prop where
  phase : Phase texts torn run.call run.entered
  recorded : Recorded op run

theorem Carried.start (system : System) :
    Carried texts op false (.start system) where
  phase := .unpolled
  recorded := ⟨fun _ => rfl, by simp [BlockingRun.start, BlockingCall.new]⟩

theorem Carried.step {event : BlockingEvent} (h : Carried texts op torn run)
    (hstep : run.step rows features texts op event = some after) :
    Carried texts op (torn || event.isTeardown) after where
  phase := h.phase.step hstep
  recorded := h.recorded.step (BlockingRun.step_ran h.phase hstep)

theorem Carried.of_followsBy {system : System}
    (h : (machine rows features texts op).FollowsBy
      (fun event => event.isTeardown = false) (.start system) run) :
    Carried texts op false run := by
  refine h.invariant (Carried texts op false) ?_ (.start system)
  intro state next event hstate hevent hstep
  have hnext := hstate.step hstep
  rwa [hevent] at hnext

theorem Carried.of_follows {system : System}
    (h : (machine rows features texts op).Follows (.start system) run) :
    ∃ torn, Carried texts op torn run := by
  refine h.invariant (fun state => ∃ torn, Carried texts op torn state) ?_
    ⟨false, .start system⟩
  rintro state next event ⟨torn, hstate⟩ hstep
  exact ⟨_, hstate.step hstep⟩

end

/-- The steps of the detached task and of the pool that a submitted closure
still has before it. -/
def BlockingCall.backlog (call : BlockingCall) : Nat :=
  match call.path, call.forwarder, call.job with
  | some .detached, .spawned, _ => 4
  | some .detached, .awaiting, .queued => 3
  | some .detached, .awaiting, .running => 2
  | some .detached, .awaiting, .finished _ => 1
  | some .tokio, _, .queued => 2
  | some .tokio, _, .running => 1
  | _, _, _ => 0

/-- The steps of the detached task and of the pool. -/
def BlockingEvent.internal : BlockingEvent → Bool
  | .forward | .pick | .finish _ => true
  | _ => false

section

variable {rows : TaskConversion} {features : Features} {texts : JoinTexts}
  {op : Op} {run after : BlockingRun}

theorem BlockingCall.polled_backlog (call : BlockingCall) :
    (call.polled texts).backlog = call.backlog := by
  unfold BlockingCall.polled
  split <;> simp_all [BlockingCall.backlog]

/-- A submitted closure has at most its backlog before it, whatever the
caller does meanwhile. -/
theorem Phase.backlog_step {event : BlockingEvent}
    (h : Phase texts false run.call run.entered)
    (hpolled : run.call.path ≠ none) (hevent : event.isTeardown = false)
    (hstep : run.step rows features texts op event = some after) :
    after.call.backlog + event.internal.toNat ≤ run.call.backlog := by
  obtain ⟨system, call, entered, written⟩ := run
  cases event with
  | teardown => cases hevent
  | other invocation =>
      cases hstep
      exact Nat.le_refl _
  | drop =>
      simp only [BlockingRun.step] at hstep
      split at hstep
      · cases hstep
        exact Nat.le_refl _
      · cases hstep
        exact Nat.le_refl _
      · cases hstep
  | poll entered stop =>
      simp only [BlockingRun.step] at hstep
      split at hstep
      · rename_i hcaller
        cases h with
        | unpolled => exact absurd rfl hpolled
        | abandoned | inline _ | unwanted _ => cases hcaller
        | tokioQueued hopen | tokioRunning hopen | spawned hopen
        | queued hopen | running hopen | answered _ hopen =>
            cases hopen <;> cases hcaller
        | tokioFinished _ htold | forwarded _ htold =>
            rcases htold with hopen | htold
            · cases hopen <;> cases hcaller
            · cases htold.symm.trans hcaller
      · cases hstep
        exact Nat.le_of_eq (BlockingCall.polled_backlog call)
      · cases hstep
  | forward =>
      cases h with
      | unpolled | abandoned | inline _ | unwanted _ | tokioQueued _
      | tokioRunning _ | tokioFinished _ _ | queued _ | running _
      | forwarded _ _ => cases hstep
      | spawned _ | answered _ _ =>
          cases hstep
          exact Nat.le_refl _
  | pick =>
      cases h with
      | unpolled | abandoned | inline _ | unwanted _ | tokioRunning _
      | tokioFinished _ _ | spawned _ | running _ | answered _ _
      | forwarded _ _ => cases hstep
      | tokioQueued _ | queued _ =>
          cases hstep
          exact Nat.le_refl _
  | finish stop =>
      cases h with
      | unpolled | abandoned | inline _ | unwanted _ | tokioQueued _
      | tokioFinished _ _ | spawned _ | queued _ | answered _ _
      | forwarded _ _ => cases hstep
      | tokioRunning _ | running _ =>
          cases hstep
          exact Nat.le_refl _

/-- Nobody has to want the result for the closure to be carried out. -/
theorem Phase.advances (h : Phase texts false run.call run.entered)
    (hbacklog : 0 < run.call.backlog) (stop : ClosureEnd) :
    ∃ event ∈ [BlockingEvent.forward, .pick, .finish stop], ∃ next,
      run.step rows features texts op event = some next ∧
        next.call.backlog < run.call.backlog := by
  obtain ⟨system, call, entered, written⟩ := run
  cases h with
  | unpolled | abandoned | inline _ | tokioFinished _ _ | unwanted _
  | forwarded _ _ => cases hbacklog
  | tokioQueued hopen =>
      exact ⟨.pick, by simp, _, rfl, Nat.lt_succ_self 1⟩
  | tokioRunning hopen =>
      exact ⟨.finish stop, by simp, _, rfl, Nat.lt_succ_self 0⟩
  | spawned hopen =>
      exact ⟨.forward, by simp, _, rfl, Nat.lt_succ_self 3⟩
  | queued hopen =>
      exact ⟨.pick, by simp, _, rfl, Nat.lt_succ_self 2⟩
  | running hopen =>
      exact ⟨.finish stop, by simp, _, rfl, Nat.lt_succ_self 1⟩
  | answered ends hopen =>
      exact ⟨.forward, by simp, _, rfl, Nat.lt_succ_self 0⟩

theorem Phase.carried_out (h : Phase texts false run.call run.entered)
    (hpolled : run.call.path ≠ none) (hbacklog : run.call.backlog = 0) :
    run.entered = 1 ∧ ∃ stop, run.call.job = .finished stop := by
  obtain ⟨system, call, entered, written⟩ := run
  cases h with
  | unpolled | abandoned => exact absurd rfl hpolled
  | inline stop | tokioFinished stop _ | unwanted stop | forwarded stop _ =>
      exact ⟨rfl, stop, rfl⟩
  | tokioQueued _ | tokioRunning _ | spawned _ | queued _ | running _
  | answered _ _ => cases hbacklog

theorem Phase.entered_le {torn : Bool}
    (h : Phase texts torn run.call run.entered) : run.entered ≤ 1 := by
  obtain ⟨system, call, entered, written⟩ := run
  cases h <;> simp

theorem Phase.unsubmitted {torn : Bool}
    (h : Phase texts torn run.call run.entered)
    (hpath : run.call.path = none) :
    run.entered = 0 ∧ ∀ stop, run.call.job ≠ .finished stop := by
  obtain ⟨system, call, entered, written⟩ := run
  cases h with
  | unpolled => exact ⟨rfl, by simp⟩
  | abandoned => exact ⟨rfl, by simp⟩
  | _ => cases hpath

/-- What a resolved caller was told: the end of the closure, or, after a
shutdown, that there is none to tell. -/
theorem Phase.told {torn : Bool} (h : Phase texts torn run.call run.entered)
    {result : Except Error Outcome}
    (hresolved : run.call.caller = .resolved result) :
    (∃ stop, run.call.job = .finished stop ∧ result = stop.joined texts) ∨
      (torn = true ∧ ∃ message, result = .error (.blocking message)) := by
  obtain ⟨system, call, entered, written⟩ := run
  have hopen : ∀ {caller : Caller}, caller.Open →
      caller ≠ .resolved result := by
    intro caller hcaller hcontra
    cases hcaller <;> cases hcontra
  have htells : ∀ {caller : Caller} {expected : Except Error Outcome},
      caller.Told expected → caller = .resolved result →
      result = expected := by
    intro caller expected htold hcaller
    rcases htold with hcontra | htold
    · exact absurd hcaller (hopen hcontra)
    · cases htold.symm.trans hcaller
      rfl
  cases h with
  | unpolled | abandoned | unwanted _ => cases hresolved
  | tokioQueued hcaller | tokioRunning hcaller | spawned hcaller
  | queued hcaller | running hcaller | answered _ hcaller =>
      exact absurd hresolved (hopen hcaller)
  | inline stop =>
      cases hresolved
      exact Or.inl ⟨stop, rfl, rfl⟩
  | tokioFinished stop htold | forwarded stop htold =>
      exact Or.inl ⟨stop, rfl, htells htold hresolved⟩
  | tokioDiscarded htold | tornUnrun _ htold | tornRun _ htold =>
      exact Or.inr ⟨rfl, _, htells htold hresolved⟩

/-- A caller that still waits is told at its next poll. -/
theorem Phase.tells (h : Phase texts false run.call run.entered)
    (hwaiting : run.call.caller = .waiting) (hbacklog : run.call.backlog = 0)
    (entered : Entered) (stop : ClosureEnd) :
    ∃ ends next, run.call.job = .finished ends ∧
      run.step rows features texts op (.poll entered stop) = some next ∧
      next.call.caller = .resolved (ends.joined texts) := by
  obtain ⟨system, call, count, written⟩ := run
  cases h with
  | unpolled | abandoned | inline _ | unwanted _ => cases hwaiting
  | tokioQueued _ | tokioRunning _ | spawned _ | queued _ | running _
  | answered _ _ => cases hbacklog
  | tokioFinished ends _ =>
      cases hwaiting
      exact ⟨ends, _, rfl, rfl, rfl⟩
  | forwarded ends _ =>
      cases hwaiting
      exact ⟨ends, _, rfl, rfl, rfl⟩

/-- A closure is carried out whether or not anybody still wants its result.
In every run without a shutdown of the runtime, and whatever the caller, the
detached task, the pool and other transactions do in which order: the closure
is entered at most once, and not before the first poll; once the call was
polled, the steps its closure has before it are bounded, no step of the caller
adds to them, and as long as there are any the detached task or the pool can
take the next; when there are none the closure ran exactly once, and its
transaction is in the record of the database exactly once with the result it
returned, unless it got no connection or panicked. -/
theorem dropped_call_carried_out {system : System}
    (h : (machine rows features texts op).FollowsBy
      (fun event => event.isTeardown = false) (.start system) run) :
    run.entered ≤ 1 ∧
    (run.call.path = none → run.entered = 0 ∧ run.written = []) ∧
    (run.call.path ≠ none →
      (∀ event next, event.isTeardown = false →
        run.step rows features texts op event = some next →
        next.call.backlog + event.internal.toNat ≤ run.call.backlog) ∧
      (0 < run.call.backlog → ∀ stop,
        ∃ event ∈ [BlockingEvent.forward, .pick, .finish stop], ∃ next,
          run.step rows features texts op event = some next) ∧
      (run.call.backlog = 0 → run.entered = 1 ∧
        ∃ stop, run.call.job = .finished stop ∧
          Wrote op run.system run.written stop)) := by
  have hcarried := Carried.of_followsBy h
  refine ⟨hcarried.phase.entered_le, ?_, ?_⟩
  · intro hpath
    obtain ⟨hentered, hjob⟩ := hcarried.phase.unsubmitted hpath
    exact ⟨hentered, hcarried.recorded.unwritten hjob⟩
  · intro hpolled
    refine ⟨?_, ?_, ?_⟩
    · intro event next hevent hstep
      exact hcarried.phase.backlog_step hpolled hevent hstep
    · intro hbacklog stop
      obtain ⟨event, hmem, next, hstep, _⟩ :=
        hcarried.phase.advances hbacklog stop
      exact ⟨event, hmem, next, hstep⟩
    · intro hbacklog
      obtain ⟨hentered, stop, hjob⟩ :=
        hcarried.phase.carried_out hpolled hbacklog
      exact ⟨hentered, stop, hjob, hcarried.recorded.wrote stop hjob⟩

/-- A caller on an ntex system submits an enqueue and is dropped before the
detached task was polled: the enqueue commits. -/
theorem dropped_call_carried_out_enqueue :
    let op : Op := .pushTasksOnConn "queue" [sampleTask]
    let calls := machine .copying ⟨true, true⟩ ⟨"p", "d", "c"⟩ op
    let events : List BlockingEvent := [.poll ⟨false, true⟩ .panic, .drop,
      .forward, .pick, .finish (.transaction quietEnv), .forward]
    ∃ run, calls.run (.start .initial) events = some run ∧
      run.call.path = some .detached ∧ run.entered = 1 ∧
      ∃ stop, run.call.job = .finished stop ∧
        Wrote op run.system run.written stop := by
  intro op calls events
  obtain ⟨run, hrun⟩ : ∃ run,
      calls.run (.start .initial) events = some run := ⟨_, rfl⟩
  have hpath : run.call.path = some .detached := by
    cases hrun
    rfl
  have hbacklog : run.call.backlog = 0 := by
    cases hrun
    rfl
  have hfollows : calls.FollowsBy (fun event => event.isTeardown = false)
      (.start .initial) run := Machine.followsBy_of_run events
    (by simp [events, BlockingEvent.isTeardown]) hrun
  exact ⟨run, hrun, hpath, ((dropped_call_carried_out hfollows).2.2
    (by simp [hpath])).2.2 hbacklog⟩

/-- Callers are told what their closure returned.  In every run a caller that
resolved was told the closure's own result, which the record of the database
bears out, or an `Error::Blocking`; without a shutdown it is the end of the
closure in any case, and a caller that still waits once nothing is before the
closure learns it at its next poll. -/
theorem blocking_results_forwarded {system : System}
    (h : (machine rows features texts op).Follows (.start system) run) :
    (∀ outcome, run.call.caller = .resolved (.ok outcome) →
      ∃ position effects, run.written = [position] ∧
        run.system.commits[position]? = some ⟨op, effects, .ok outcome⟩) ∧
    (∀ error, run.call.caller = .resolved (.error error) →
      (∃ stop, run.call.job = .finished stop ∧
        stop.joined texts = .error error ∧
        Wrote op run.system run.written stop) ∨
      ∃ message, error = .blocking message) ∧
    ((machine rows features texts op).FollowsBy
        (fun event => event.isTeardown = false) (.start system) run →
      (∀ result, run.call.caller = .resolved result →
        ∃ stop, run.call.job = .finished stop ∧
          result = stop.joined texts) ∧
      (run.call.caller = .waiting → run.call.backlog = 0 →
        ∀ entered stop, ∃ ends next, run.call.job = .finished ends ∧
          run.step rows features texts op (.poll entered stop) = some next ∧
          next.call.caller = .resolved (ends.joined texts))) := by
  obtain ⟨torn, hcarried⟩ := Carried.of_follows h
  refine ⟨?_, ?_, ?_⟩
  · intro outcome hresolved
    rcases hcarried.phase.told hresolved with ⟨stop, hjob, hresult⟩ |
      ⟨_, message, hblocking⟩
    · have hwrote := hcarried.recorded.wrote stop hjob
      cases stop with
      | panicked => cases hresult
      | returned result =>
          cases hresult
          rcases hwrote with ⟨_, message, hpool⟩ | hcommit
          · cases hpool
          · exact hcommit
    · cases hblocking
  · intro error hresolved
    rcases hcarried.phase.told hresolved with ⟨stop, hjob, hresult⟩ |
      ⟨_, message, hblocking⟩
    · exact Or.inl ⟨stop, hjob, hresult.symm,
        hcarried.recorded.wrote stop hjob⟩
    · cases hblocking
      exact Or.inr ⟨message, rfl⟩
  · intro hundisturbed
    have hwhole := Carried.of_followsBy hundisturbed
    refine ⟨?_, ?_⟩
    · intro result hresolved
      rcases hwhole.phase.told hresolved with htold | ⟨hcontra, _⟩
      · exact htold
      · cases hcontra
    · intro hwaiting hbacklog entered stop
      exact hwhole.phase.tells hwaiting hbacklog entered stop

/-- The closure of a waiting caller panics; the caller learns of it. -/
theorem blocking_results_forwarded_panic :
    let calls := machine .copying ⟨false, true⟩ ⟨"p", "d", "c"⟩
      (.pushTasksOnConn "queue" [])
    let events : List BlockingEvent := [.poll ⟨false, true⟩ .panic, .forward,
      .pick, .finish .panic, .forward]
    ∃ run, calls.run (.start .initial) events = some run ∧
      ∃ ends next, run.call.job = .finished ends ∧
        calls.step run (.poll ⟨false, true⟩ .panic) = some next ∧
        next.call.caller = .resolved (ends.joined ⟨"p", "d", "c"⟩) := by
  intro calls events
  obtain ⟨run, hrun⟩ : ∃ run,
      calls.run (.start .initial) events = some run := ⟨_, rfl⟩
  have hwaiting : run.call.caller = .waiting := by
    cases hrun
    rfl
  have hbacklog : run.call.backlog = 0 := by
    cases hrun
    rfl
  have hfollows : calls.FollowsBy (fun event => event.isTeardown = false)
      (.start .initial) run := Machine.followsBy_of_run events
    (by simp [events, BlockingEvent.isTeardown]) hrun
  have hrun' := Machine.follows_of_run events hrun
  exact ⟨run, hrun, ((blocking_results_forwarded hrun').2.2 hfollows).2
    hwaiting hbacklog _ _⟩

end

end ApalisPostgres.Runtime
