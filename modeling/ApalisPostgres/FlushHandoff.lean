/-
The hand-off of a flush batch.  `flush_tasks` keeps the batch in a slot that
its blocking closure and its awaiting side share: the closure takes it out
once it has a connection, the awaiting side takes it back when the executor
failed, and the steps of the two interleave in any order.
-/
import ApalisPostgres.EventMachine
import ApalisPostgres.Queries
import ApalisPostgres.Sink

namespace ApalisPostgres

open RowStore

/-- `FlushPhase`: how far a closure that returned had come. -/
inductive FlushPhase where
  | notStarted (error : Error)
  | rejected (error : Error)
  | uncertain (error : Error)
deriving DecidableEq

/-- How a statement that commits by itself ended: it took effect, it failed,
or it took effect and its answer was lost. -/
inductive CallEnd where
  | done
  | failed (error : Error)
  | lost (error : Error)
deriving DecidableEq

/-- Where the blocking closure is. -/
inductive FlushStage (α : Type) where
  | queued
  | started
  | connected
  | taken (tasks : List α)
  | prepared (tasks : List α)
  | opened (tasks : List α)
  | inserted (tasks : List α)
  | rollingBack (error : Error)
  | written (result : Except Error Unit)
  | returned (result : Except FlushPhase Unit)
  | panicked
  | discarded
deriving DecidableEq

/-- What became of the batch, in order. -/
inductive BatchEntry (α : Type) where
  | taken (tasks : List α)
  | inserted (tasks : List α)
  | committed (tasks : List α)
  | handedBack (tasks : List α)
deriving DecidableEq

/-- The awaiting side: `run.await` is pending, has resolved, has been turned
into the outcome of the flush, or was dropped with the future. -/
inductive Awaiting (α : Type) where
  | running
  | resolved (run : Except Error (Except FlushPhase Unit))
  | ready (outcome : Except (FlushFailure α) Unit)
  | dropped

/-- One call of `flush_tasks`. -/
structure Flush (α : Type) where
  batch : List α
  slot : Option (List α)
  stage : FlushStage α
  awaiting : Awaiting α
  log : List (BatchEntry α)

/-- The steps of the closure, with the answers it gets from outside. -/
inductive ClosureStep where
  | start
  | discard
  | checkout (conn : Except Error Unit)
  | take
  | prepare
  | insert (stop : CallEnd)
  | beginTransaction (answer : Except Error Unit)
  | insertReporting (answer : Except Error (List (Option String)))
  | rollback (failure : Option Error)
  | commit (stop : CallEnd)
  | finish
  | panic
deriving DecidableEq

/-- The closure is on its thread: a panic may end it here. -/
def FlushStage.running {α : Type} : FlushStage α → Bool
  | .queued | .returned _ | .panicked | .discarded => false
  | _ => true

/-- `Result` of a statement whose success is its effect. -/
def CallEnd.result : CallEnd → Except Error Unit
  | .done => .ok ()
  | .failed error => .error error
  | .lost error => .error error

def CallEnd.applied : CallEnd → Bool
  | .failed _ => false
  | _ => true

namespace Flush

variable {α : Type} (validateTask : α → Except Error Unit) (queue : String)
  (idempotencyKey : α → Option String)

/-- `flush_tasks` is polled: the batch is in the slot and the closure is
submitted. -/
def submit (tasks : List α) : Flush α :=
  ⟨tasks, some tasks, .queued, .running, []⟩

def record (flush : Flush α) (entries : List (BatchEntry α)) : Flush α :=
  { flush with log := flush.log ++ entries }

def enter (flush : Flush α) (stage : FlushStage α) : Flush α :=
  { flush with stage := stage }

/-- The commit a statement may have made although its answer was lost. -/
def committedBy (tasks : List α) (stop : CallEnd) :
    List (BatchEntry α) :=
  if stop.applied then [.committed tasks] else []

/-- The error of `insert_reporting_conflicts`. -/
def conflict (tasks : List α) (inserted : List (Option String)) : Error :=
  .idempotencyConflict queue
    (conflictingKeys (tasks.filterMap idempotencyKey) inserted [])
    tasks.length

/-- One step of the blocking closure, in the order of the source. -/
def closureStep (flush : Flush α) : ClosureStep → Option (Flush α)
  | .start =>
      match flush.stage with
      | .queued => some (flush.enter .started)
      | _ => none
  | .discard =>
      -- an executor that shuts down drops the closures it did not start
      match flush.stage with
      | .queued => some (flush.enter .discarded)
      | _ => none
  | .checkout conn =>
      match flush.stage, conn with
      | .started, .ok () => some (flush.enter .connected)
      | .started, .error error =>
          some (flush.enter (.returned (.error (.notStarted error))))
      | _, _ => none
  | .take =>
      match flush.stage, flush.slot with
      | .connected, some tasks =>
          some (({ flush with slot := none }.enter (.taken tasks)).record
            [.taken tasks])
      | .connected, none =>
          -- `expect("a flush batch is taken exactly once")`
          some (flush.enter .panicked)
      | _, _ => none
  | .prepare =>
      match flush.stage with
      | .taken tasks =>
          if tasks.isEmpty then some (flush.enter (.returned (.ok ())))
          else
            match prepareBatch validateTask tasks with
            | .error error =>
                some (flush.enter (.returned (.error (.rejected error))))
            | .ok () => some (flush.enter (.prepared tasks))
      | _ => none
  | .insert stop =>
      match flush.stage with
      | .prepared tasks =>
          if tasks.any fun task => (idempotencyKey task).isSome then none
          else
            some ((flush.enter (.written stop.result)).record
              (.inserted tasks :: committedBy tasks stop))
      | _ => none
  | .beginTransaction answer =>
      match flush.stage, answer with
      | .prepared tasks, .ok () =>
          if tasks.any fun task => (idempotencyKey task).isSome then
            some (flush.enter (.opened tasks))
          else none
      | .prepared tasks, .error error =>
          if tasks.any fun task => (idempotencyKey task).isSome then
            some (flush.enter (.written (.error error)))
          else none
      | _, _ => none
  | .insertReporting answer =>
      match flush.stage, answer with
      | .opened tasks, .error error =>
          some ((flush.enter (.rollingBack error)).record [.inserted tasks])
      | .opened tasks, .ok inserted =>
          if inserted.length < tasks.length then
            some ((flush.enter (.rollingBack
              (conflict queue idempotencyKey tasks inserted))).record
                [.inserted tasks])
          else
            some ((flush.enter (.inserted tasks)).record [.inserted tasks])
      | _, _ => none
  | .rollback failure =>
      match flush.stage with
      | .rollingBack error =>
          some (flush.enter (.written (.error (failure.getD error))))
      | _ => none
  | .commit stop =>
      match flush.stage with
      | .inserted tasks =>
          some ((flush.enter (.written stop.result)).record
            (committedBy tasks stop))
      | _ => none
  | .finish =>
      match flush.stage with
      | .written result =>
          some (flush.enter (.returned (result.mapError .uncertain)))
      | _ => none
  | .panic =>
      -- a transaction still open is rolled back with its connection
      if flush.stage.running then some (flush.enter .panicked) else none

/-- The executor hands over what the closure returned. -/
def report (flush : Flush α) : Option (Flush α) :=
  match flush.awaiting, flush.stage with
  | .running, .returned result =>
      some { flush with awaiting := .resolved (.ok result) }
  | _, _ => none

/-- The executor fails, whatever the closure did or will still do. -/
def executorError (flush : Flush α) (error : Error) : Option (Flush α) :=
  match flush.awaiting with
  | .running => some { flush with awaiting := .resolved (.error error) }
  | _ => none

def finishWith (flush : Flush α) (outcome : Except (FlushFailure α) Unit) :
    Flush α :=
  { flush with awaiting := .ready outcome }

/-- `take_back`: what is left in the slot. -/
def takeBack (flush : Flush α) : Flush α :=
  match flush.slot with
  | some tasks => { flush with slot := none }.record [.handedBack tasks]
  | none => flush

/-- The awaiting side after `run.await`; `none` while it is pending. -/
def resolve (flush : Flush α) :
    Option (Flush α × Except (FlushFailure α) Unit) :=
  match flush.awaiting with
  | .resolved (.ok (.ok ())) => some (flush.finishWith (.ok ()), .ok ())
  | .resolved (.ok (.error (.notStarted error))) =>
      let outcome := .error (.notStarted (flush.slot.getD []) error)
      some (flush.takeBack.finishWith outcome, outcome)
  | .resolved (.ok (.error (.rejected error))) =>
      let outcome := .error (.rejected error)
      some (flush.finishWith outcome, outcome)
  | .resolved (.ok (.error (.uncertain error))) =>
      let outcome := .error (.uncertain error)
      some (flush.finishWith outcome, outcome)
  | .resolved (.error error) =>
      match flush.slot with
      | some tasks =>
          let outcome := .error (.notStarted tasks error)
          some (flush.takeBack.finishWith outcome, outcome)
      | none =>
          let outcome := .error (.uncertain error)
          some (flush.finishWith outcome, outcome)
  | _ => none

/-- What the flush returned. -/
def outcome (flush : Flush α) : Option (Except (FlushFailure α) Unit) :=
  match flush.awaiting with
  | .ready outcome => some outcome
  | _ => none

end Flush

/-- A sink with every flush it ever submitted, in order; the one in flight is
the last.  The sink is gone once the storage was dropped. -/
structure FlushSystem (α : Type) where
  sink : Option (PgSink α)
  flushes : List (Flush α)

inductive FlushSystemEvent (α : Type) where
  | push (item : α)
  | poll
  | drop
  | closure (n : Nat) (step : ClosureStep)
  | report (n : Nat)
  | executorError (n : Nat) (error : Error)

namespace FlushSystem

variable {α : Type} (validateTask : α → Except Error Unit) (queue : String)
  (idempotencyKey : α → Option String)

/-- The pipeline after its flush came to an outcome. -/
def settle (sink : PgSink α) : Except (FlushFailure α) Unit → PgSink α
  | .error (.notStarted tasks _) =>
      { sink.settled with buffer := tasks ++ sink.settled.buffer }
  | .error (.rejected _) => sink.settled
  | .error (.uncertain _) => { sink.settled with failed := true }
  | .ok () => sink.settled

/-- One turn of the loop of `poll_flush_inner`: it submits the buffer when no
flush is in flight, and otherwise polls the flush. -/
def poll (system : FlushSystem α) (sink : PgSink α) : FlushSystem α :=
  if sink.failed || sink.drained then system
  else if sink.flushFuture.isNone then
    ⟨some sink.started, system.flushes ++ [.submit sink.buffer]⟩
  else
    match system.flushes.getLast? with
    | none => system
    | some flush =>
        match flush.resolve with
        | none => system
        | some (finished, outcome) =>
            ⟨some (settle sink outcome),
              system.flushes.dropLast ++ [finished]⟩

/-- Change the `n`-th flush, where the change applies. -/
def change (system : FlushSystem α) (n : Nat)
    (f : Flush α → Option (Flush α)) : Option (FlushSystem α) := do
  let flush ← system.flushes[n]?
  let changed ← f flush
  return { system with flushes := system.flushes.set n changed }

def abandon (flush : Flush α) : Flush α :=
  match flush.awaiting with
  | .ready _ => flush
  | _ => { flush with awaiting := .dropped }

def step (system : FlushSystem α) :
    FlushSystemEvent α → Option (FlushSystem α)
  | .push item => do
      let sink ← system.sink
      return { system with sink := some (sink.tryPush validateTask item).1 }
  | .poll => do
      let sink ← system.sink
      return system.poll sink
  | .drop => some ⟨none, system.flushes.map abandon⟩
  | .closure n step =>
      system.change n (Flush.closureStep validateTask queue idempotencyKey · step)
  | .report n => system.change n Flush.report
  | .executorError n error => system.change n (Flush.executorError · error)

/-- A fresh sink and every interleaving of its calls with the closures and
the executor. -/
def machine : Machine (FlushSystem α) (FlushSystemEvent α) where
  Initial system := ∃ bufferSize, system = ⟨some (.new bufferSize), []⟩
  step := step validateTask queue idempotencyKey

end FlushSystem

section

variable {α : Type}

/-- The closure runs or will run, and has not taken the batch. -/
def FlushStage.Early : FlushStage α → Prop
  | .queued | .started | .connected => True
  | _ => False

/-- The closure ended or is early: it never took the batch. -/
def FlushStage.Untaken : FlushStage α → Prop
  | .queued | .started | .connected | .panicked | .discarded => True
  | .returned (.error (.notStarted _)) => True
  | _ => False

/-- Everything the closure can do with a batch it took. -/
def trail (batch : List α) : List (BatchEntry α) :=
  [.taken batch, .inserted batch, .committed batch]

/-- How far along its trail a closure that took the batch is. -/
def FlushStage.Progress (validateTask : α → Except Error Unit)
    (batch : List α) : FlushStage α → List (BatchEntry α) → Prop
  | .taken tasks, log => tasks = batch ∧ log = [.taken batch]
  | .prepared tasks, log | .opened tasks, log =>
      tasks = batch ∧ log = [.taken batch] ∧
        prepareBatch validateTask batch = .ok ()
  | .inserted tasks, log =>
      tasks = batch ∧ log = [.taken batch, .inserted batch] ∧
        prepareBatch validateTask batch = .ok ()
  | .rollingBack _, log => log = [.taken batch, .inserted batch]
  | .written (.ok ()), log | .returned (.ok ()), log =>
      log = trail batch ∧ prepareBatch validateTask batch = .ok ()
  | .returned (.error (.rejected error)), log =>
      log = [.taken batch] ∧ prepareBatch validateTask batch = .error error
  | .written (.error _), log | .returned (.error (.uncertain _)), log
  | .panicked, log => log ≠ [] ∧ log <+: trail batch
  | _, _ => False

theorem FlushStage.Early.untaken {stage : FlushStage α} (h : stage.Early) :
    stage.Untaken := by
  cases stage <;> simp_all [FlushStage.Early, FlushStage.Untaken]

theorem FlushStage.Early.not_progress {stage : FlushStage α}
    (h : stage.Early) {validateTask : α → Except Error Unit}
    {batch : List α} {log : List (BatchEntry α)} :
    ¬ stage.Progress validateTask batch log := by
  cases stage <;> simp_all [FlushStage.Early, FlushStage.Progress]

/-- A closure past its take is on the trail, and a panic leaves it there. -/
theorem FlushStage.Progress.panicked {stage : FlushStage α}
    {validateTask : α → Except Error Unit} {batch : List α}
    {log : List (BatchEntry α)} (h : stage.Progress validateTask batch log) :
    log ≠ [] ∧ log <+: trail batch := by
  have htaken : [BatchEntry.taken batch] <+: trail batch :=
    ⟨[.inserted batch, .committed batch], rfl⟩
  have hinserted :
      [BatchEntry.taken batch, .inserted batch] <+: trail batch :=
    ⟨[.committed batch], rfl⟩
  have hcommitted : trail batch ≠ [] ∧ trail batch <+: trail batch :=
    ⟨by simp [trail], List.prefix_rfl⟩
  match stage, h with
  | .taken _, ⟨_, hlog⟩ => exact hlog ▸ ⟨by simp, htaken⟩
  | .prepared _, ⟨_, hlog, _⟩ => exact hlog ▸ ⟨by simp, htaken⟩
  | .opened _, ⟨_, hlog, _⟩ => exact hlog ▸ ⟨by simp, htaken⟩
  | .inserted _, ⟨_, hlog, _⟩ => exact hlog ▸ ⟨by simp, hinserted⟩
  | .rollingBack _, hlog => exact hlog ▸ ⟨by simp, hinserted⟩
  | .written (.ok ()), ⟨hlog, _⟩ => exact hlog ▸ hcommitted
  | .returned (.ok ()), ⟨hlog, _⟩ => exact hlog ▸ hcommitted
  | .returned (.error (.rejected _)), ⟨hlog, _⟩ =>
      exact hlog ▸ ⟨by simp, htaken⟩
  | .written (.error _), hlog => exact hlog
  | .returned (.error (.uncertain _)), hlog => exact hlog
  | .panicked, hlog => exact hlog

/-- Everything a step of the closure can do: move on before its take, take
the batch, or move along the trail of a batch it took. -/
inductive Flush.Advances (validateTask : α → Except Error Unit)
    (flush after : Flush α) : Prop
  | early (hstage : flush.stage.Early) (hafter : after.stage.Untaken)
      (hlog : after.log = flush.log) (hslot : after.slot = flush.slot)
  | take {tasks : List α} (hstage : flush.stage.Early)
      (hslot : flush.slot = some tasks) (hafter : after.stage = .taken tasks)
      (hlog : after.log = flush.log ++ [.taken tasks])
      (hempty : after.slot = none)
  | onward (hstage : ¬ flush.stage.Untaken)
      (hprogress : ∀ batch, batch ≠ [] →
        flush.stage.Progress validateTask batch flush.log →
          after.stage.Progress validateTask batch after.log)
      (hslot : after.slot = flush.slot)

variable {validateTask : α → Except Error Unit} {queue : String}
  {idempotencyKey : α → Option String} {flush after : Flush α}

/-- A step of the closure leaves the awaiting side alone, and a closure that
returned takes no step. -/
theorem Flush.closureStep_frame {step : ClosureStep}
    (h : flush.closureStep validateTask queue idempotencyKey step =
      some after) :
    after.batch = flush.batch ∧ after.awaiting = flush.awaiting ∧
      ∀ result, flush.stage ≠ .returned result := by
  cases step <;> simp only [closureStep] at h
  case panic =>
    split at h
    · rename_i hrunning
      obtain rfl := Option.some.inj h
      refine ⟨rfl, rfl, ?_⟩
      intro result hreturned
      simp [hreturned, FlushStage.running] at hrunning
    · cases h
  all_goals
    repeat' split at h
    all_goals first
      | cases h; done
      | obtain rfl := Option.some.inj h
        exact ⟨rfl, rfl, by simp_all⟩

theorem Flush.closureStep_advances {step : ClosureStep}
    (h : flush.closureStep validateTask queue idempotencyKey step =
      some after) : flush.Advances validateTask after := by
  cases step with
  | start =>
      simp only [closureStep] at h
      split at h
      · rename_i hstage
        obtain rfl := Option.some.inj h
        exact .early (by simp [hstage, FlushStage.Early]) trivial rfl rfl
      · cases h
  | discard =>
      simp only [closureStep] at h
      split at h
      · rename_i hstage
        obtain rfl := Option.some.inj h
        exact .early (by simp [hstage, FlushStage.Early]) trivial rfl rfl
      · cases h
  | checkout conn =>
      simp only [closureStep] at h
      split at h
      · rename_i hstage
        obtain rfl := Option.some.inj h
        exact .early (by simp [hstage, FlushStage.Early]) trivial rfl rfl
      · rename_i hstage
        obtain rfl := Option.some.inj h
        exact .early (by simp [hstage, FlushStage.Early]) trivial rfl rfl
      · cases h
  | take =>
      simp only [closureStep] at h
      split at h
      · rename_i tasks hstage hslot
        obtain rfl := Option.some.inj h
        exact .take (by simp [hstage, FlushStage.Early]) hslot rfl rfl rfl
      · rename_i hstage hslot
        obtain rfl := Option.some.inj h
        exact .early (by simp [hstage, FlushStage.Early]) trivial rfl rfl
      · cases h
  | prepare =>
      simp only [closureStep] at h
      split at h
      · rename_i tasks hstage
        split at h
        · rename_i hempty
          obtain rfl := Option.some.inj h
          refine .onward (by simp [hstage, FlushStage.Untaken]) ?_ rfl
          intro batch hbatch hprogress
          rw [hstage] at hprogress
          obtain ⟨rfl, _⟩ := hprogress
          exact absurd (List.isEmpty_iff.mp hempty) hbatch
        · split at h
          · rename_i error hprepare
            obtain rfl := Option.some.inj h
            refine .onward (by simp [hstage, FlushStage.Untaken]) ?_ rfl
            intro batch hbatch hprogress
            rw [hstage] at hprogress
            obtain ⟨rfl, hlog⟩ := hprogress
            exact ⟨hlog, hprepare⟩
          · rename_i hprepare
            obtain rfl := Option.some.inj h
            refine .onward (by simp [hstage, FlushStage.Untaken]) ?_ rfl
            intro batch hbatch hprogress
            rw [hstage] at hprogress
            obtain ⟨rfl, hlog⟩ := hprogress
            exact ⟨rfl, hlog, hprepare⟩
      · cases h
  | insert stop =>
      simp only [closureStep] at h
      split at h
      · rename_i tasks hstage
        split at h
        · cases h
        · obtain rfl := Option.some.inj h
          refine .onward (by simp [hstage, FlushStage.Untaken]) ?_ rfl
          intro batch hbatch hprogress
          rw [hstage] at hprogress
          obtain ⟨rfl, hlog, hprepare⟩ := hprogress
          cases stop with
          | done =>
              refine ⟨?_, hprepare⟩
              simp [enter, record, hlog, committedBy, CallEnd.applied,
                trail]
          | failed error =>
              constructor <;>
                simp [enter, record, hlog, committedBy, CallEnd.applied,
                  trail]
          | lost error =>
              constructor <;>
                simp [enter, record, hlog, committedBy, CallEnd.applied,
                  trail]
      · cases h
  | beginTransaction answer =>
      simp only [closureStep] at h
      split at h
      · rename_i tasks hstage
        split at h
        · obtain rfl := Option.some.inj h
          refine .onward (by simp [hstage, FlushStage.Untaken]) ?_ rfl
          intro batch hbatch hprogress
          rw [hstage] at hprogress
          exact hprogress
        · cases h
      · rename_i tasks error hstage
        split at h
        · obtain rfl := Option.some.inj h
          refine .onward (by simp [hstage, FlushStage.Untaken]) ?_ rfl
          intro batch hbatch hprogress
          exact hprogress.panicked
        · cases h
      · cases h
  | insertReporting answer =>
      simp only [closureStep] at h
      split at h
      · rename_i tasks error hstage
        obtain rfl := Option.some.inj h
        refine .onward (by simp [hstage, FlushStage.Untaken]) ?_ rfl
        intro batch hbatch hprogress
        rw [hstage] at hprogress
        obtain ⟨rfl, hlog, _⟩ := hprogress
        simp [enter, record, hlog, FlushStage.Progress]
      · rename_i tasks inserted hstage
        split at h
        · obtain rfl := Option.some.inj h
          refine .onward (by simp [hstage, FlushStage.Untaken]) ?_ rfl
          intro batch hbatch hprogress
          rw [hstage] at hprogress
          obtain ⟨rfl, hlog, _⟩ := hprogress
          simp [enter, record, hlog, FlushStage.Progress]
        · obtain rfl := Option.some.inj h
          refine .onward (by simp [hstage, FlushStage.Untaken]) ?_ rfl
          intro batch hbatch hprogress
          rw [hstage] at hprogress
          obtain ⟨rfl, hlog, hprepare⟩ := hprogress
          simp [enter, record, hlog, FlushStage.Progress, hprepare]
      · cases h
  | rollback failure =>
      simp only [closureStep] at h
      split at h
      · rename_i error hstage
        obtain rfl := Option.some.inj h
        refine .onward (by simp [hstage, FlushStage.Untaken]) ?_ rfl
        intro batch hbatch hprogress
        exact hprogress.panicked
      · cases h
  | commit stop =>
      simp only [closureStep] at h
      split at h
      · rename_i tasks hstage
        obtain rfl := Option.some.inj h
        refine .onward (by simp [hstage, FlushStage.Untaken]) ?_ rfl
        intro batch hbatch hprogress
        rw [hstage] at hprogress
        obtain ⟨rfl, hlog, hprepare⟩ := hprogress
        cases stop with
        | done =>
            refine ⟨?_, hprepare⟩
            simp [enter, record, hlog, committedBy, CallEnd.applied,
              trail]
        | failed error =>
            constructor <;>
              simp [enter, record, hlog, committedBy, CallEnd.applied,
                trail]
        | lost error =>
            constructor <;>
              simp [enter, record, hlog, committedBy, CallEnd.applied,
                trail]
      · cases h
  | finish =>
      simp only [closureStep] at h
      split at h
      · rename_i result hstage
        obtain rfl := Option.some.inj h
        refine .onward (by simp [hstage, FlushStage.Untaken]) ?_ rfl
        intro batch hbatch hprogress
        rw [hstage] at hprogress
        cases result with
        | ok value => exact hprogress
        | error error => exact hprogress
      · cases h
  | panic =>
      simp only [closureStep] at h
      split at h
      · rename_i hrunning
        obtain rfl := Option.some.inj h
        by_cases hearly : flush.stage.Early
        · exact .early hearly trivial rfl rfl
        · refine .onward ?_ (fun _ _ hprogress => hprogress.panicked) rfl
          intro huntaken
          cases hstage : flush.stage <;>
            simp_all [FlushStage.Early, FlushStage.Untaken,
              FlushStage.running]
      · cases h

/-- Where the batch is: still in the slot, with the closure, or handed
back. -/
inductive Flush.Placed (validateTask : α → Except Error Unit)
    (flush : Flush α) : Prop
  | inSlot (hslot : flush.slot = some flush.batch) (hlog : flush.log = [])
      (hstage : flush.stage.Untaken) (hpending : flush.outcome = none)
  | taken (hslot : flush.slot = none)
      (hprogress : flush.stage.Progress validateTask flush.batch flush.log)
      (hkept : ∀ tasks error,
        flush.outcome ≠ some (.error (.notStarted tasks error)))
  | handedBack (hslot : flush.slot = none)
      (hlog : flush.log = [.handedBack flush.batch])
      (hstage : flush.stage.Untaken)
      {error : Error}
      (houtcome : flush.awaiting =
        .ready (.error (.notStarted flush.batch error)))

/-- The awaiting side only repeats what the closure returned, unless the
executor failed. -/
def Flush.Relayed (flush : Flush α) : Prop :=
  match flush.awaiting with
  | .resolved (.ok result) => flush.stage = .returned result
  | .ready (.ok ()) => flush.stage = .returned (.ok ())
  | .ready (.error (.rejected error)) =>
      flush.stage = .returned (.error (.rejected error))
  | _ => True

structure Flush.Sound (validateTask : α → Except Error Unit)
    (flush : Flush α) : Prop where
  nonempty : flush.batch ≠ []
  placed : flush.Placed validateTask
  relayed : flush.Relayed

theorem Flush.submit_sound {tasks : List α} (h : tasks ≠ []) :
    (Flush.submit tasks).Sound validateTask :=
  ⟨h, .inSlot rfl rfl trivial rfl, trivial⟩

theorem Flush.outcome_congr (h : after.awaiting = flush.awaiting) :
    after.outcome = flush.outcome := by
  simp only [outcome, h]

/-- No step of the closure moves a batch that the awaiting side took back,
and only the closure's own take moves it out of the slot. -/
theorem Flush.Sound.closureStep {step : ClosureStep}
    (hsound : flush.Sound validateTask)
    (h : flush.closureStep validateTask queue idempotencyKey step =
      some after) : after.Sound validateTask := by
  obtain ⟨hbatch, hawaiting, hrunning⟩ := closureStep_frame h
  have houtcome := outcome_congr hawaiting
  refine ⟨hbatch ▸ hsound.nonempty, ?_, ?_⟩
  · cases closureStep_advances h with
    | early hstage hafter hlog hslot =>
        cases hsound.placed with
        | inSlot hin hnil _ hpending =>
            exact .inSlot (by rw [hslot, hin, hbatch]) (by rw [hlog, hnil])
              hafter (by rw [houtcome, hpending])
        | taken _ hprogress _ => exact absurd hprogress hstage.not_progress
        | handedBack hout hback _ hready =>
            exact .handedBack (by rw [hslot, hout])
              (by rw [hlog, hback, hbatch]) hafter
              (by rw [hawaiting, hready, hbatch])
    | take hstage hslot hafter hlog hempty =>
        cases hsound.placed with
        | inSlot hin hnil _ hpending =>
            obtain rfl := Option.some.inj (hin.symm.trans hslot)
            refine .taken hempty ?_ (by simp [houtcome, hpending])
            rw [hafter, hlog, hnil, hbatch]
            exact ⟨rfl, rfl⟩
        | taken hout _ _ => simp [hout] at hslot
        | handedBack hout _ _ _ => simp [hout] at hslot
    | onward hstage hprogress hslot =>
        cases hsound.placed with
        | inSlot _ _ huntaken _ => exact absurd huntaken hstage
        | taken hout htrail hkept =>
            refine .taken (by rw [hslot, hout]) ?_ (by rwa [houtcome])
            rw [hbatch]
            exact hprogress _ hsound.nonempty htrail
        | handedBack _ _ huntaken _ => exact absurd huntaken hstage
  · have hrelayed := hsound.relayed
    unfold Relayed at hrelayed ⊢
    rw [hawaiting]
    split <;> simp_all

theorem Flush.Placed.await (h : flush.Placed validateTask)
    (hpending : flush.outcome = none) {awaiting : Awaiting α}
    (hawaiting : ∀ outcome, awaiting ≠ .ready outcome) :
    ({ flush with awaiting := awaiting } : Flush α).Placed validateTask := by
  have hout :
      ({ flush with awaiting := awaiting } : Flush α).outcome = none := by
    cases awaiting <;> simp_all [outcome]
  cases h with
  | inSlot hslot hlog hstage _ => exact .inSlot hslot hlog hstage hout
  | taken hslot hprogress _ => exact .taken hslot hprogress (by simp [hout])
  | handedBack _ _ _ hready => simp [outcome, hready] at hpending

theorem Flush.Sound.report (hsound : flush.Sound validateTask)
    (h : flush.report = some after) : after.Sound validateTask := by
  unfold Flush.report at h
  split at h
  · rename_i result hrunning hstage
    obtain rfl := Option.some.inj h
    exact ⟨hsound.nonempty,
      hsound.placed.await (by simp [outcome, hrunning]) (by simp), hstage⟩
  · cases h

theorem Flush.Sound.executorError {error : Error}
    (hsound : flush.Sound validateTask)
    (h : flush.executorError error = some after) :
    after.Sound validateTask := by
  unfold Flush.executorError at h
  split at h
  · rename_i hrunning
    obtain rfl := Option.some.inj h
    exact ⟨hsound.nonempty,
      hsound.placed.await (by simp [outcome, hrunning]) (by simp), trivial⟩
  · cases h

theorem Flush.Sound.abandon (hsound : flush.Sound validateTask) :
    (FlushSystem.abandon flush).Sound validateTask := by
  unfold FlushSystem.abandon
  split
  · exact hsound
  · rename_i hready
    refine ⟨hsound.nonempty, hsound.placed.await ?_ (by simp), trivial⟩
    cases hawaiting : flush.awaiting <;> simp_all [outcome]

theorem Flush.Sound.takeBack (hsound : flush.Sound validateTask)
    (hslot : flush.slot = some flush.batch)
    (hstage : flush.stage.Untaken) (hlog : flush.log = []) (error : Error) :
    (flush.takeBack.finishWith (.error (.notStarted flush.batch error))).Sound
      validateTask := by
  have hback : flush.takeBack =
      { flush with slot := none, log := [.handedBack flush.batch] } := by
    simp [Flush.takeBack, hslot, record, hlog]
  rw [hback]
  exact ⟨hsound.nonempty, .handedBack rfl rfl hstage rfl, trivial⟩

theorem Flush.Sound.finishTaken (hsound : flush.Sound validateTask)
    (hslot : flush.slot = none)
    (hprogress : flush.stage.Progress validateTask flush.batch flush.log)
    {outcome : Except (FlushFailure α) Unit}
    (hkept : ∀ tasks error, outcome ≠ .error (.notStarted tasks error))
    (hrelayed : (flush.finishWith outcome).Relayed) :
    (flush.finishWith outcome).Sound validateTask := by
  refine ⟨hsound.nonempty, .taken hslot hprogress ?_, hrelayed⟩
  intro tasks error houtcome
  exact hkept tasks error (Option.some.inj houtcome)

/-- Once `run.await` resolved, the batch is in the slot or with the
closure. -/
theorem Flush.Placed.resolved (h : flush.Placed validateTask)
    {run : Except Error (Except FlushPhase Unit)}
    (hawaiting : flush.awaiting = .resolved run) :
    (flush.slot = some flush.batch ∧ flush.log = [] ∧ flush.stage.Untaken) ∨
      (flush.slot = none ∧
        flush.stage.Progress validateTask flush.batch flush.log) := by
  cases h with
  | inSlot hslot hlog hstage _ => exact Or.inl ⟨hslot, hlog, hstage⟩
  | taken hslot hprogress _ => exact Or.inr ⟨hslot, hprogress⟩
  | handedBack _ _ _ hready => simp [hready] at hawaiting

/-- The awaiting side hands the batch back only out of the slot. -/
theorem Flush.Sound.resolve {outcome : Except (FlushFailure α) Unit}
    (hsound : flush.Sound validateTask)
    (h : flush.resolve = some (after, outcome)) :
    after.Sound validateTask := by
  have hrelayed := hsound.relayed
  unfold Relayed at hrelayed
  unfold Flush.resolve at h
  split at h
  · rename_i hawaiting
    obtain ⟨rfl, rfl⟩ := h
    simp only [hawaiting] at hrelayed
    rcases hsound.placed.resolved hawaiting with
      ⟨_, _, hstage⟩ | ⟨hslot, hprogress⟩
    · simp [hrelayed, FlushStage.Untaken] at hstage
    · exact hsound.finishTaken hslot hprogress (by simp) hrelayed
  · rename_i error hawaiting
    obtain ⟨rfl, rfl⟩ := h
    simp only [hawaiting] at hrelayed
    rcases hsound.placed.resolved hawaiting with
      ⟨hslot, hlog, hstage⟩ | ⟨_, hprogress⟩
    · simpa [hslot] using hsound.takeBack hslot hstage hlog error
    · simp [hrelayed, FlushStage.Progress] at hprogress
  · rename_i error hawaiting
    obtain ⟨rfl, rfl⟩ := h
    simp only [hawaiting] at hrelayed
    rcases hsound.placed.resolved hawaiting with
      ⟨_, _, hstage⟩ | ⟨hslot, hprogress⟩
    · simp [hrelayed, FlushStage.Untaken] at hstage
    · exact hsound.finishTaken hslot hprogress (by simp) hrelayed
  · rename_i error hawaiting
    obtain ⟨rfl, rfl⟩ := h
    simp only [hawaiting] at hrelayed
    rcases hsound.placed.resolved hawaiting with
      ⟨_, _, hstage⟩ | ⟨hslot, hprogress⟩
    · simp [hrelayed, FlushStage.Untaken] at hstage
    · exact hsound.finishTaken hslot hprogress (by simp) trivial
  · rename_i error hawaiting
    -- the executor failed: the slot alone tells whether the closure took
    rcases hsound.placed.resolved hawaiting with
      ⟨hslot, hlog, hstage⟩ | ⟨hslot, hprogress⟩
    · simp only [hslot] at h
      obtain ⟨rfl, rfl⟩ := h
      exact hsound.takeBack hslot hstage hlog error
    · simp only [hslot] at h
      obtain ⟨rfl, rfl⟩ := h
      exact hsound.finishTaken hslot hprogress (by simp) trivial
  · cases h

/-- The outcome a resolved flush is left with. -/
theorem Flush.resolve_outcome {outcome : Except (FlushFailure α) Unit}
    (h : flush.resolve = some (after, outcome)) :
    after.outcome = some outcome ∧ flush.outcome = none := by
  unfold Flush.resolve at h
  split at h
  case h_5 =>
    rename_i hawaiting
    split at h <;> obtain ⟨rfl, rfl⟩ := h <;>
      simp [finishWith, Flush.outcome, hawaiting]
  case h_6 => cases h
  all_goals
    rename_i hawaiting
    obtain ⟨rfl, rfl⟩ := h
    simp [finishWith, Flush.outcome, hawaiting]

namespace FlushSystem

variable {system next : FlushSystem α}

/-- One event keeps every flush sound: it touches one flush at a time. -/
theorem step_sound {event : FlushSystemEvent α}
    (hsystem : ∀ flush ∈ system.flushes, flush.Sound validateTask)
    (h : step validateTask queue idempotencyKey system event = some next) :
    ∀ flush ∈ next.flushes, flush.Sound validateTask := by
  have hchange : ∀ {n : Nat} {f : Flush α → Option (Flush α)},
      (∀ {flush after}, flush.Sound validateTask → f flush = some after →
        after.Sound validateTask) →
      system.change n f = some next →
      ∀ flush ∈ next.flushes, flush.Sound validateTask := by
    intro n f hf hnext flush hflush
    simp only [change, Option.bind_eq_bind, Option.bind_eq_some_iff] at hnext
    obtain ⟨old, hold, changed, hchanged, hset⟩ := hnext
    obtain rfl := Option.some.inj hset
    rcases List.mem_or_eq_of_mem_set hflush with hmem | rfl
    · exact hsystem flush hmem
    · exact hf (hsystem old (List.mem_of_getElem? hold)) hchanged
  cases event with
  | push item =>
      simp only [step, Option.bind_eq_bind, Option.bind_eq_some_iff] at h
      obtain ⟨sink, _, hnext⟩ := h
      obtain rfl := Option.some.inj hnext
      exact hsystem
  | poll =>
      simp only [step, Option.bind_eq_bind, Option.bind_eq_some_iff] at h
      obtain ⟨sink, _, hnext⟩ := h
      obtain rfl := Option.some.inj hnext
      unfold poll
      split
      · exact hsystem
      · rename_i hbusy
        split
        · rename_i hidle
          intro flush hflush
          rcases List.mem_append.mp hflush with hmem | hmem
          · exact hsystem flush hmem
          · obtain rfl := List.mem_singleton.mp hmem
            refine Flush.submit_sound ?_
            intro hempty
            simp [PgSink.drained, hempty, hidle] at hbusy
        · split
          · exact hsystem
          · rename_i last hlast
            split
            · exact hsystem
            · rename_i finished outcome hresolve
              intro flush hflush
              rcases List.mem_append.mp hflush with hmem | hmem
              · exact hsystem flush ((List.dropLast_subset _ hmem))
              · obtain rfl := List.mem_singleton.mp hmem
                have hmem := List.mem_of_getLast? hlast
                exact (hsystem last hmem).resolve hresolve
  | drop =>
      obtain rfl := Option.some.inj h
      intro flush hflush
      obtain ⟨old, hold, rfl⟩ := List.mem_map.mp hflush
      exact (hsystem old hold).abandon
  | closure n step => exact hchange Flush.Sound.closureStep h
  | report n => exact hchange Flush.Sound.report h
  | executorError n error => exact hchange Flush.Sound.executorError h

theorem reachable_sound
    (h : (machine validateTask queue idempotencyKey).Reachable system) :
    ∀ flush ∈ system.flushes, flush.Sound validateTask := by
  refine h.invariant (fun system : FlushSystem α =>
    ∀ flush ∈ system.flushes, flush.Sound validateTask) ?_ step_sound
  rintro start ⟨bufferSize, rfl⟩
  simp

/-- A flush keeps its place and the outcome it once returned. -/
theorem step_outcome {event : FlushSystemEvent α} {n : Nat}
    {outcome : Except (FlushFailure α) Unit}
    (h : step validateTask queue idempotencyKey system event = some next)
    (hold : ∃ flush, system.flushes[n]? = some flush ∧
      flush.outcome = some outcome) :
    ∃ flush, next.flushes[n]? = some flush ∧
      flush.outcome = some outcome := by
  obtain ⟨flush, hflush, houtcome⟩ := hold
  obtain ⟨hlt, hget⟩ := List.getElem?_eq_some_iff.mp hflush
  have hchange : ∀ {k : Nat} {f : Flush α → Option (Flush α)},
      (∀ {flush after}, f flush = some after →
        flush.outcome = some outcome → after.outcome = some outcome) →
      system.change k f = some next →
      ∃ flush, next.flushes[n]? = some flush ∧
        flush.outcome = some outcome := by
    intro k f hf hnext
    simp only [change, Option.bind_eq_bind, Option.bind_eq_some_iff] at hnext
    obtain ⟨old, hat, changed, hchanged, hset⟩ := hnext
    obtain rfl := Option.some.inj hset
    by_cases hsame : k = n
    · subst hsame
      obtain rfl := Option.some.inj (hat.symm.trans hflush)
      exact ⟨changed, by simp [hlt],
        hf hchanged houtcome⟩
    · exact ⟨flush, by simp [hsame, hflush], houtcome⟩
  cases event with
  | push item =>
      simp only [step, Option.bind_eq_bind, Option.bind_eq_some_iff] at h
      obtain ⟨sink, _, hnext⟩ := h
      obtain rfl := Option.some.inj hnext
      exact ⟨flush, hflush, houtcome⟩
  | poll =>
      simp only [step, Option.bind_eq_bind, Option.bind_eq_some_iff] at h
      obtain ⟨sink, _, hnext⟩ := h
      obtain rfl := Option.some.inj hnext
      unfold poll
      split
      · exact ⟨flush, hflush, houtcome⟩
      · split
        · exact ⟨flush, by simp [List.getElem?_append, hlt, hget],
            houtcome⟩
        · split
          · exact ⟨flush, hflush, houtcome⟩
          · rename_i last hlast
            split
            · exact ⟨flush, hflush, houtcome⟩
            · rename_i finished result hresolve
              have hother : n ≠ system.flushes.length - 1 := by
                intro hn
                rw [List.getLast?_eq_getElem?, ← hn, hflush] at hlast
                obtain rfl := Option.some.inj hlast
                simp [(Flush.resolve_outcome hresolve).2] at houtcome
              have hbefore : n < system.flushes.dropLast.length := by
                rw [List.length_dropLast]
                omega
              refine ⟨flush, ?_, houtcome⟩
              rw [List.getElem?_append_left hbefore, List.getElem?_dropLast]
              simp only [List.length_dropLast] at hbefore
              simp [hbefore, hflush]
  | drop =>
      obtain rfl := Option.some.inj h
      refine ⟨abandon flush, by simp [hflush], ?_⟩
      cases hawaiting : flush.awaiting <;>
        simp_all [abandon, Flush.outcome]
  | closure k step =>
      refine hchange ?_ h
      intro flush after hstep hready
      rw [Flush.outcome_congr (Flush.closureStep_frame hstep).2.1, hready]
  | report k =>
      refine hchange ?_ h
      intro flush after hstep hready
      unfold Flush.report at hstep
      split at hstep
      · rename_i hrunning _
        simp [Flush.outcome, hrunning] at hready
      · cases hstep
  | executorError k error =>
      refine hchange ?_ h
      intro flush after hstep hready
      unfold Flush.executorError at hstep
      split at hstep
      · rename_i hrunning
        simp [Flush.outcome, hrunning] at hready
      · cases hstep

end FlushSystem

/-- The entries that take the batch out of its slot. -/
def BatchEntry.leaves : BatchEntry α → Bool
  | .taken _ | .handedBack _ => true
  | _ => false

/-- The batch leaves its slot once, and what the flush returns says what can
have become of it. -/
structure Flush.HandedOff (flush : Flush α) : Prop where
  once : (flush.slot = some flush.batch ∧ flush.log = []) ∨
    (flush.slot = none ∧
      (flush.log.filter BatchEntry.leaves = [.taken flush.batch] ∨
        flush.log.filter BatchEntry.leaves = [.handedBack flush.batch]))
  finished : flush.outcome.isSome → flush.slot = none
  handedBack : ∀ tasks, .handedBack tasks ∈ flush.log ↔
    ∃ error, flush.outcome = some (.error (.notStarted tasks error))
  notStarted : ∀ tasks error,
    flush.outcome = some (.error (.notStarted tasks error)) →
      tasks = flush.batch ∧ flush.log = [.handedBack flush.batch]
  rejected : ∀ error, flush.outcome = some (.error (.rejected error)) →
    flush.log = [.taken flush.batch]
  written : flush.outcome = some (.ok ()) →
    .committed flush.batch ∈ flush.log

/-- Along the trail the only entry that leaves the slot is the take. -/
theorem leaves_trail {batch : List α} {log : List (BatchEntry α)}
    (hne : log ≠ []) (hlog : log <+: trail batch) :
    log.filter BatchEntry.leaves = [.taken batch] ∧
      ∀ tasks, .handedBack tasks ∉ log := by
  obtain ⟨rest, hrest⟩ := hlog
  match log, hne with
  | [first], _ =>
      simp only [trail, List.cons_append, List.cons.injEq] at hrest
      obtain ⟨rfl, _⟩ := hrest
      simp [BatchEntry.leaves]
  | [first, second], _ =>
      simp only [trail, List.cons_append, List.cons.injEq] at hrest
      obtain ⟨rfl, rfl, _⟩ := hrest
      exact ⟨rfl, by simp⟩
  | [first, second, third], _ =>
      simp only [trail, List.cons_append, List.cons.injEq] at hrest
      obtain ⟨rfl, rfl, rfl, _⟩ := hrest
      exact ⟨rfl, by simp⟩
  | _ :: _ :: _ :: _ :: _, _ => simp [trail] at hrest

theorem Flush.Sound.handedOff (h : flush.Sound validateTask) :
    flush.HandedOff := by
  have hrelayed := h.relayed
  unfold Relayed at hrelayed
  cases h.placed with
  | inSlot hslot hlog hstage hpending =>
      exact ⟨Or.inl ⟨hslot, hlog⟩, by simp [hpending], by simp [hlog, hpending],
        by simp [hpending], by simp [hpending], by simp [hpending]⟩
  | taken hslot hprogress hkept =>
      obtain ⟨hleaves, hnever⟩ :=
        leaves_trail hprogress.panicked.1 hprogress.panicked.2
      refine ⟨Or.inr ⟨hslot, Or.inl hleaves⟩, fun _ => hslot, ?_, ?_, ?_, ?_⟩
      · intro tasks
        simp [hnever tasks, hkept]
      · intro tasks error houtcome
        exact absurd houtcome (hkept tasks error)
      · intro error houtcome
        unfold outcome at houtcome
        split at houtcome
        · rename_i result hawaiting
          obtain rfl := Option.some.inj houtcome
          simp only [hawaiting] at hrelayed
          rw [hrelayed] at hprogress
          exact hprogress.1
        · cases houtcome
      · intro houtcome
        unfold outcome at houtcome
        split at houtcome
        · rename_i result hawaiting
          obtain rfl := Option.some.inj houtcome
          simp only [hawaiting] at hrelayed
          rw [hrelayed] at hprogress
          rw [hprogress.1]
          simp [trail]
        · cases houtcome
  | @handedBack hslot hlog hstage error hready =>
      have houtcome : flush.outcome =
          some (.error (.notStarted flush.batch error)) := by
        simp [outcome, hready]
      refine ⟨Or.inr ⟨hslot, Or.inr (by simp [hlog, BatchEntry.leaves])⟩,
        fun _ => hslot, ?_, ?_, by simp [houtcome], by simp [houtcome]⟩
      · intro tasks
        simp [hlog, houtcome, eq_comm]
      · intro tasks failure hfailure
        rw [houtcome] at hfailure
        simp only [Option.some.injEq, Except.error.injEq,
          FlushFailure.notStarted.injEq] at hfailure
        exact ⟨hfailure.1.symm, hlog⟩

/-- In every interleaving of a sink's calls with its flush closures and the
executor, each batch leaves its slot at most once and exactly once when its
flush returned; a flush returned as not started or rejected never issued and
will never issue its INSERT, and one returned as written committed it. -/
theorem flush_batch_handed_off {system later : FlushSystem α}
    (hsystem :
      (FlushSystem.machine validateTask queue idempotencyKey).Reachable system)
    (hlater : (FlushSystem.machine validateTask queue idempotencyKey).Follows
      system later)
    {n : Nat} (hflush : system.flushes[n]? = some flush) :
    flush.HandedOff ∧
      ((∃ tasks error,
          flush.outcome = some (.error (.notStarted tasks error))) ∨
        (∃ error, flush.outcome = some (.error (.rejected error))) →
        ∃ lateFlush, later.flushes[n]? = some lateFlush ∧
          ∀ tasks, .inserted tasks ∉ lateFlush.log) := by
  have hsound := FlushSystem.reachable_sound hsystem
  refine ⟨(hsound flush (List.mem_of_getElem? hflush)).handedOff, ?_⟩
  have hkept : ∀ outcome, flush.outcome = some outcome →
      ∃ lateFlush, later.flushes[n]? = some lateFlush ∧
        lateFlush.outcome = some outcome ∧ lateFlush.HandedOff := by
    intro outcome houtcome
    obtain ⟨lateFlush, hlate, hsame⟩ := hlater.invariant
      (fun system : FlushSystem α => ∃ flush,
        system.flushes[n]? = some flush ∧ flush.outcome = some outcome)
      (fun hold hstep => FlushSystem.step_outcome hstep hold)
      ⟨flush, hflush, houtcome⟩
    exact ⟨lateFlush, hlate, hsame,
      (FlushSystem.reachable_sound (hsystem.follows hlater) lateFlush
        (List.mem_of_getElem? hlate)).handedOff⟩
  rintro (⟨tasks, error, houtcome⟩ | ⟨error, houtcome⟩)
  · obtain ⟨lateFlush, hlate, hsame, hoff⟩ := hkept _ houtcome
    exact ⟨lateFlush, hlate, by simp [(hoff.notStarted _ _ hsame).2]⟩
  · obtain ⟨lateFlush, hlate, hsame, hoff⟩ := hkept _ houtcome
    exact ⟨lateFlush, hlate, by simp [hoff.rejected _ hsame]⟩

/-- The executor reports a failure before it starts the closure: the batch is
handed back, and the closure that starts all the same finds the slot empty and
issues nothing. -/
theorem flush_batch_handed_off_late_closure :
    ∃ (system later : FlushSystem Nat) (flush lateFlush : Flush Nat),
      system.flushes[0]? = some flush ∧
        flush.outcome =
          some (.error (.notStarted [1] (.blocking "cancelled"))) ∧
        flush.HandedOff ∧
        later.flushes[0]? = some lateFlush ∧ lateFlush.stage = .panicked ∧
        ∀ tasks, .inserted tasks ∉ lateFlush.log := by
  let machine := FlushSystem.machine (fun _ : Nat => .ok ()) "q"
    (fun _ => none)
  let flush : Flush Nat := ⟨[1], none, .queued,
    .ready (.error (.notStarted [1] (.blocking "cancelled"))),
    [.handedBack [1]]⟩
  let lateFlush : Flush Nat := { flush with stage := .panicked }
  let system : FlushSystem Nat := ⟨some ⟨4, [1], none, false⟩, [flush]⟩
  let later : FlushSystem Nat := ⟨some ⟨4, [1], none, false⟩, [lateFlush]⟩
  have hsystem : machine.Reachable system :=
    ⟨_, ⟨4, rfl⟩, Machine.follows_of_run [.push 1, .poll,
      .executorError 0 (.blocking "cancelled"), .poll] rfl⟩
  have hlater : machine.Follows system later :=
    Machine.follows_of_run [.closure 0 .start,
      .closure 0 (.checkout (.ok ())), .closure 0 .take] rfl
  have hflush : system.flushes[0]? = some flush := rfl
  obtain ⟨hoff, hnever⟩ := flush_batch_handed_off hsystem hlater hflush
  obtain ⟨late, hlate, hlog⟩ := hnever (Or.inl ⟨_, _, rfl⟩)
  obtain rfl := Option.some.inj hlate
  exact ⟨system, later, flush, lateFlush, rfl, rfl, hoff, rfl, rfl, hlog⟩

end

end ApalisPostgres
