/-
The buffered task sink.  A batch is taken out of the buffer when its flush
starts, tasks may be accepted while it is in flight, and a flush that issued
nothing hands its batch back in front of them.
-/
import ApalisPostgres.Errors

namespace ApalisPostgres

/-- `Poll<Result<(), Error>>`. -/
inductive Poll where
  | pending
  | ready (result : Except Error Unit)
deriving DecidableEq

/-- How the blocking run of a flush ended: without a connection, with the
outcome of its INSERT, or by a failure of the executor before or after the
closure took the batch out of its slot. -/
inductive FlushRun where
  | poolError (error : Error)
  | issued (written : Except Error Unit)
  | executorError (taken : Bool) (error : Error)

/-- Why a buffered flush did not write its batch. -/
inductive FlushFailure (α : Type) where
  | notStarted (tasks : List α) (error : Error)
  | rejected (error : Error)
  | uncertain (error : Error)

/-- What becomes of a batch, as the database sees it. -/
inductive FlushEvent (α : Type) where
  | submitted (batch : List α)
  | written (batch : List α)
  | handedBack (batch : List α)
  | dropped (batch : List α)
  | uncertain (batch : List α)
deriving Repr, DecidableEq

/-- The pipeline state; `flushFuture` is the batch of the flush in flight. -/
structure PgSink (α : Type) where
  bufferSize : Nat
  buffer : List α
  flushFuture : Option (List α)
  failed : Bool
deriving Repr, DecidableEq

section

variable {α : Type} (validateTask : α → Except Error Unit)

/-- `prepare_batch`: the caps of every task, in order. -/
def prepareBatch : List α → Except Error Unit
  | [] => .ok ()
  | task :: rest =>
      match validateTask task with
      | .error error => .error error
      | .ok () => prepareBatch rest

/-- `flush_tasks` over the end of its blocking run. -/
def flushTasks (tasks : List α) : FlushRun → Except (FlushFailure α) Unit
  | .poolError error => .error (.notStarted tasks error)
  | .issued written =>
      if tasks.isEmpty then .ok ()
      else
        match prepareBatch validateTask tasks with
        | .error error => .error (.rejected error)
        | .ok () =>
            match written with
            | .error error => .error (.uncertain error)
            | .ok () => .ok ()
  | .executorError taken error =>
      -- a batch still in the slot proves the closure never ran
      if taken then .error (.uncertain error)
      else .error (.notStarted tasks error)

namespace PgSink

def new (bufferSize : Nat) : PgSink α := ⟨bufferSize, [], none, false⟩

/-- Only the phantom markers of the codec change. -/
def retype (sink : PgSink α) : PgSink α :=
  ⟨sink.bufferSize, sink.buffer, sink.flushFuture, sink.failed⟩

def capacity (sink : PgSink α) : Nat := max sink.bufferSize 1

def needsFlushBeforeReady (sink : PgSink α) : Bool :=
  sink.failed || sink.flushFuture.isSome ||
    decide (sink.capacity ≤ sink.buffer.length)

def tryPush (sink : PgSink α) (item : α) : PgSink α × Except Error Unit :=
  if sink.failed then (sink, .error .sinkFailed)
  else if sink.capacity ≤ sink.buffer.length then
    (sink, .error (.sinkBufferFull sink.capacity))
  else
    match validateTask item with
    | .error error => (sink, .error error)
    | .ok () => ({ sink with buffer := sink.buffer ++ [item] }, .ok ())

/-- How much a flush still has to write. -/
def outstanding (sink : PgSink α) : Nat :=
  sink.flushFuture.elim 0 (fun _ => 1) + sink.buffer.length

/-- The batch the next poll drives: the one in flight, or all that is
buffered. -/
def batch (sink : PgSink α) : List α := sink.flushFuture.getD sink.buffer

/-- `flush_future.get_or_insert_with(..)`: a flush is in flight. -/
def started (sink : PgSink α) : PgSink α :=
  if sink.flushFuture.isSome then sink
  else { sink with buffer := [], flushFuture := some sink.buffer }

/-- `*flush_future = None`: the polled flush is over. -/
def settled (sink : PgSink α) : PgSink α :=
  { sink.started with flushFuture := none }

/-- Nothing is in flight and nothing is buffered. -/
def drained (sink : PgSink α) : Bool :=
  sink.flushFuture.isNone && sink.buffer.isEmpty

theorem settled_outstanding {sink : PgSink α} (h : ¬ sink.drained = true) :
    sink.settled.outstanding < sink.outstanding := by
  cases hflight : sink.flushFuture with
  | some batch => simp [settled, started, outstanding, hflight]
  | none =>
      have hbuffer : sink.buffer ≠ [] := by
        simpa [drained, hflight] using h
      have hpos := List.length_pos_of_ne_nil hbuffer
      simpa [settled, started, outstanding, hflight] using hpos

/-- The end of a poll: the pipeline, what the caller sees and what became of
the batches. -/
structure PollEnd (α : Type) where
  sink : PgSink α
  poll : Poll
  events : List (FlushEvent α)

def PollEnd.after (events : List (FlushEvent α)) (stop : PollEnd α) :
    PollEnd α :=
  { stop with events := events ++ stop.events }

/-- The submission of a batch that is started just now. -/
def submission (sink : PgSink α) : List (FlushEvent α) :=
  if sink.flushFuture.isSome then [] else [.submitted sink.buffer]

/-- The loop of `poll_flush_inner`; `polls n` is the `n`-th poll of a flush
future in this call, `none` while it is pending. -/
def flushLoop (polls : Nat → Option FlushRun) (n : Nat) (sink : PgSink α) :
    PollEnd α :=
  if sink.drained then ⟨sink, .ready (.ok ()), []⟩
  else
    match polls n with
    | none => ⟨sink.started, .pending, sink.submission⟩
    | some run =>
        match flushTasks validateTask sink.batch run with
        | .error (.notStarted tasks error) =>
            -- the batch precedes any task accepted while it was in flight
            ⟨{ sink.settled with buffer := tasks ++ sink.settled.buffer },
              .ready (.error error),
              sink.submission ++ [.handedBack sink.batch]⟩
        | .error (.rejected error) =>
            ⟨sink.settled, .ready (.error error),
              sink.submission ++ [.dropped sink.batch]⟩
        | .error (.uncertain error) =>
            ⟨{ sink.settled with failed := true }, .ready (.error error),
              sink.submission ++ [.uncertain sink.batch]⟩
        | .ok () =>
            -- revisit the buffer before promising completion
            (flushLoop polls (n + 1) sink.settled).after
              (sink.submission ++ [.written sink.batch])
termination_by sink.outstanding
decreasing_by exact settled_outstanding ‹_›

def pollFlushInner (polls : Nat → Option FlushRun) (sink : PgSink α) :
    PollEnd α :=
  if sink.failed then ⟨sink, .ready (.error .sinkFailed), []⟩
  else sink.flushLoop validateTask polls 0

end PgSink

/-- The calls of the `Sink` implementation, and the codec swap. -/
inductive SinkCall (α : Type) where
  | pollReady (polls : Nat → Option FlushRun)
  | startSend (item : α)
  | pollFlush (polls : Nat → Option FlushRun)
  | pollClose (polls : Nat → Option FlushRun)
  | retype

/-- A pipeline with the record of what it accepted and what became of it. -/
structure SinkRun (α : Type) where
  sink : PgSink α
  accepted : List α
  events : List (FlushEvent α)

namespace SinkRun

def new (bufferSize : Nat) : SinkRun α := ⟨.new bufferSize, [], []⟩

/-- A poll that drives the flush. -/
def flush (polls : Nat → Option FlushRun) (run : SinkRun α) :
    SinkRun α × Poll :=
  let stop := run.sink.pollFlushInner validateTask polls
  (⟨stop.sink, run.accepted, run.events ++ stop.events⟩, stop.poll)

/-- One call and what it returns. -/
def step (run : SinkRun α) : SinkCall α → SinkRun α × Poll
  | .pollReady polls =>
      if run.sink.needsFlushBeforeReady then run.flush validateTask polls
      else (run, .ready (.ok ()))
  | .startSend item =>
      match run.sink.tryPush validateTask item with
      | (sink, .ok ()) =>
          (⟨sink, run.accepted ++ [item], run.events⟩, .ready (.ok ()))
      | (sink, .error error) =>
          (⟨sink, run.accepted, run.events⟩, .ready (.error error))
  | .pollFlush polls => run.flush validateTask polls
  | .pollClose polls => run.flush validateTask polls
  | .retype => (⟨run.sink.retype, run.accepted, run.events⟩, .ready (.ok ()))

/-- A whole sequence of calls. -/
def steps (run : SinkRun α) (calls : List (SinkCall α)) : SinkRun α :=
  calls.foldl (fun run call => (run.step validateTask call).1) run

end SinkRun

end

section

variable {α : Type}

@[simp] def FlushEvent.written? : FlushEvent α → Option (List α)
  | .written batch => some batch
  | _ => none

@[simp] def FlushEvent.uncertain? : FlushEvent α → Option (List α)
  | .uncertain batch => some batch
  | _ => none

/-- A submitted batch that was written, or may have been. -/
@[simp] def FlushEvent.issued? : FlushEvent α → Option (List α)
  | .written batch => some batch
  | .uncertain batch => some batch
  | _ => none

def writtenBatches (events : List (FlushEvent α)) : List (List α) :=
  events.filterMap FlushEvent.written?

def uncertainBatches (events : List (FlushEvent α)) : List (List α) :=
  events.filterMap FlushEvent.uncertain?

def issuedBatches (events : List (FlushEvent α)) : List (List α) :=
  events.filterMap FlushEvent.issued?

@[simp] theorem writtenBatches_append (first second : List (FlushEvent α)) :
    writtenBatches (first ++ second) =
      writtenBatches first ++ writtenBatches second := by
  simp [writtenBatches]

@[simp] theorem uncertainBatches_append (first second : List (FlushEvent α)) :
    uncertainBatches (first ++ second) =
      uncertainBatches first ++ uncertainBatches second := by
  simp [uncertainBatches]

@[simp] theorem issuedBatches_append (first second : List (FlushEvent α)) :
    issuedBatches (first ++ second) =
      issuedBatches first ++ issuedBatches second := by
  simp [issuedBatches]

@[simp] theorem writtenBatches_nil :
    writtenBatches ([] : List (FlushEvent α)) = [] := rfl

@[simp] theorem writtenBatches_cons (event : FlushEvent α)
    (events : List (FlushEvent α)) :
    writtenBatches (event :: events) =
      event.written?.toList ++ writtenBatches events := by
  cases event <;> rfl

@[simp] theorem uncertainBatches_nil :
    uncertainBatches ([] : List (FlushEvent α)) = [] := rfl

@[simp] theorem uncertainBatches_cons (event : FlushEvent α)
    (events : List (FlushEvent α)) :
    uncertainBatches (event :: events) =
      event.uncertain?.toList ++ uncertainBatches events := by
  cases event <;> rfl

@[simp] theorem issuedBatches_nil :
    issuedBatches ([] : List (FlushEvent α)) = [] := rfl

@[simp] theorem issuedBatches_cons (event : FlushEvent α)
    (events : List (FlushEvent α)) :
    issuedBatches (event :: events) =
      event.issued?.toList ++ issuedBatches events := by
  cases event <;> rfl

/-- The tasks the pipeline still holds, oldest first. -/
def PgSink.held (sink : PgSink α) : List α :=
  sink.flushFuture.getD [] ++ sink.buffer

@[simp] theorem PgSink.submission_written (sink : PgSink α) :
    writtenBatches sink.submission = [] := by
  unfold PgSink.submission
  split <;> rfl

@[simp] theorem PgSink.submission_uncertain (sink : PgSink α) :
    uncertainBatches sink.submission = [] := by
  unfold PgSink.submission
  split <;> rfl

@[simp] theorem PgSink.submission_issued (sink : PgSink α) :
    issuedBatches sink.submission = [] := by
  unfold PgSink.submission
  split <;> rfl

@[simp] theorem PgSink.started_failed (sink : PgSink α) :
    sink.started.failed = sink.failed := by
  unfold PgSink.started
  split <;> rfl

theorem PgSink.started_held (sink : PgSink α) :
    sink.started.held = sink.held := by
  cases hflight : sink.flushFuture <;>
    simp [PgSink.started, PgSink.held, hflight]

theorem PgSink.held_eq (sink : PgSink α) :
    sink.held = sink.batch ++ sink.settled.buffer := by
  cases hflight : sink.flushFuture <;>
    simp [PgSink.held, PgSink.batch, PgSink.settled, PgSink.started, hflight]

theorem PgSink.settled_held (sink : PgSink α) :
    sink.settled.held = sink.settled.buffer := by
  simp [PgSink.held, PgSink.settled]

variable {validateTask : α → Except Error Unit}

theorem prepareBatch_ok {tasks : List α}
    (h : ∀ task ∈ tasks, validateTask task = .ok ()) :
    prepareBatch validateTask tasks = .ok () := by
  induction tasks with
  | nil => rfl
  | cons task rest ih =>
      have hrest := ih fun other hother => h other (List.mem_cons_of_mem _ hother)
      simp [prepareBatch, h task List.mem_cons_self, hrest]

theorem prepareBatch_valid {tasks : List α}
    (h : prepareBatch validateTask tasks = .ok ()) :
    ∀ task ∈ tasks, validateTask task = .ok () := by
  induction tasks with
  | nil => simp
  | cons head rest ih =>
      cases hhead : validateTask head with
      | error error => simp [prepareBatch, hhead] at h
      | ok value =>
          simp only [prepareBatch, hhead] at h
          simpa [hhead] using ih h

theorem prepareBatch_refused {tasks : List α} {error : Error}
    (h : prepareBatch validateTask tasks = .error error) :
    ∃ task ∈ tasks, validateTask task = .error error := by
  induction tasks with
  | nil => cases h
  | cons head rest ih =>
      cases hhead : validateTask head with
      | error refused =>
          simp only [prepareBatch, hhead, Except.error.injEq] at h
          exact ⟨head, List.mem_cons_self, h ▸ hhead⟩
      | ok value =>
          simp only [prepareBatch, hhead] at h
          obtain ⟨task, htask, herror⟩ := ih h
          exact ⟨task, List.mem_cons_of_mem _ htask, herror⟩

/-- A batch of valid tasks is written, handed back unchanged, or uncertain:
validation never refuses it. -/
theorem flushTasks_cases {tasks : List α}
    (h : ∀ task ∈ tasks, validateTask task = .ok ()) (run : FlushRun) :
    flushTasks validateTask tasks run = .ok () ∨
      (∃ error, flushTasks validateTask tasks run =
        .error (.notStarted tasks error)) ∨
      ∃ error, flushTasks validateTask tasks run =
        .error (.uncertain error) := by
  cases run with
  | poolError error => exact Or.inr (Or.inl ⟨error, rfl⟩)
  | issued written =>
      cases written with
      | ok value =>
          left
          simp [flushTasks, prepareBatch_ok h]
      | error error =>
          by_cases hempty : tasks.isEmpty = true
          · left
            simp [flushTasks, hempty]
          · right; right
            exact ⟨error, by simp [flushTasks, hempty, prepareBatch_ok h]⟩
  | executorError taken error =>
      cases taken with
      | true => exact Or.inr (Or.inr ⟨error, rfl⟩)
      | false => exact Or.inr (Or.inl ⟨error, rfl⟩)

/-- What one flush of a working pipeline does to the tasks it holds. -/
structure Flushed (sink : PgSink α) (stop : PgSink.PollEnd α) : Prop where
  order : sink.held = (writtenBatches stop.events).flatten ++
    (uncertainBatches stop.events).flatten ++ stop.sink.held
  issued : issuedBatches stop.events =
    writtenBatches stop.events ++ uncertainBatches stop.events
  single : (uncertainBatches stop.events).length ≤ 1
  failed : stop.sink.failed = true →
    stop.sink.flushFuture = none ∧ uncertainBatches stop.events ≠ []
  live : stop.sink.failed = false → uncertainBatches stop.events = []
  complete : stop.poll = .ready (.ok ()) →
    stop.sink.held = [] ∧ stop.sink.failed = false

theorem PgSink.flushLoop_flushed (polls : Nat → Option FlushRun) (n : Nat)
    (sink : PgSink α) (hlive : sink.failed = false)
    (hvalid : ∀ task ∈ sink.held, validateTask task = .ok ()) :
    Flushed sink (sink.flushLoop validateTask polls n) := by
  have hbatchValid : ∀ sink : PgSink α,
      (∀ task ∈ sink.held, validateTask task = .ok ()) →
      ∀ task ∈ sink.batch, validateTask task = .ok () := by
    intro sink hheld task htask
    apply hheld
    rw [sink.held_eq]
    exact List.mem_append_left _ htask
  fun_induction PgSink.flushLoop validateTask polls n sink with
  | case1 n sink hdrained =>
      have hheld : sink.held = [] := by
        simp only [PgSink.drained, Bool.and_eq_true, Option.isNone_iff_eq_none,
          List.isEmpty_iff] at hdrained
        simp [PgSink.held, hdrained]
      exact ⟨by simp [hheld], rfl, by simp, by simp [hlive], fun _ => rfl,
        fun _ => ⟨hheld, hlive⟩⟩
  | case2 n sink hmore hpoll =>
      refine ⟨?_, by simp, by simp, by simp [hlive], fun _ => by simp, by simp⟩
      simp [PgSink.started_held]
  | case3 n sink hmore run hpoll tasks error hflush =>
      have hbatch := flushTasks_cases (hbatchValid sink hvalid) run
      have htasks : tasks = sink.batch := by
        rcases hbatch with hok | ⟨_, hback⟩ | ⟨_, huncertain⟩
        · rw [hflush] at hok
          cases hok
        · rw [hflush] at hback
          cases hback
          rfl
        · rw [hflush] at huncertain
          cases huncertain
      refine ⟨?_, by simp, by simp, by simp [PgSink.settled, hlive], by simp,
        by simp⟩
      rw [sink.held_eq, htasks]
      simp [PgSink.held, PgSink.settled]
  | case4 n sink hmore run hpoll error hflush =>
      rcases flushTasks_cases (hbatchValid sink hvalid) run with
        hok | ⟨_, hback⟩ | ⟨_, huncertain⟩
      · rw [hflush] at hok
        cases hok
      · rw [hflush] at hback
        cases hback
      · rw [hflush] at huncertain
        cases huncertain
  | case5 n sink hmore run hpoll error hflush =>
      refine ⟨?_, by simp, by simp, by simp [PgSink.settled], by simp, by simp⟩
      rw [sink.held_eq]
      simp [PgSink.held, PgSink.settled]
  | case6 n sink hmore run hpoll hflush ih =>
      have hrest := ih (by simp [PgSink.settled, hlive]) (by
        intro task htask
        apply hvalid
        rw [sink.held_eq, ← sink.settled_held]
        exact List.mem_append_right _ htask)
      refine ⟨?_, ?_, ?_, ?_, ?_, ?_⟩
      · rw [sink.held_eq, ← sink.settled_held, hrest.order]
        simp [PgSink.PollEnd.after]
      · simp [PgSink.PollEnd.after, hrest.issued]
      · simpa [PgSink.PollEnd.after] using hrest.single
      · simpa [PgSink.PollEnd.after] using hrest.failed
      · simpa [PgSink.PollEnd.after] using hrest.live
      · simpa [PgSink.PollEnd.after] using hrest.complete

theorem PgSink.pollFlushInner_failed (polls : Nat → Option FlushRun)
    {sink : PgSink α} (hfailed : sink.failed = true) :
    sink.pollFlushInner validateTask polls =
      ⟨sink, .ready (.error .sinkFailed), []⟩ := by
  simp [PgSink.pollFlushInner, hfailed]

/-- The invariant of a pipeline and its record. -/
structure SinkRun.Conserved (validateTask : α → Except Error Unit)
    (run : SinkRun α) : Prop where
  order : run.accepted = (writtenBatches run.events).flatten ++
    (uncertainBatches run.events).flatten ++ run.sink.held
  issued : issuedBatches run.events =
    writtenBatches run.events ++ uncertainBatches run.events
  single : (uncertainBatches run.events).length ≤ 1
  valid : ∀ task ∈ run.sink.held, validateTask task = .ok ()
  failed : run.sink.failed = true →
    run.sink.flushFuture = none ∧ uncertainBatches run.events ≠ []
  live : run.sink.failed = false → uncertainBatches run.events = []

theorem SinkRun.Conserved.new (bufferSize : Nat) :
    (SinkRun.new bufferSize : SinkRun α).Conserved validateTask := by
  refine ⟨rfl, rfl, Nat.zero_le 1, ?_, ?_, fun _ => rfl⟩
  · intro task htask
    cases htask
  · intro hfailed
    cases hfailed

/-- A flush keeps the invariant, and it completes only when nothing is left. -/
theorem SinkRun.Conserved.flush {run : SinkRun α}
    (h : run.Conserved validateTask) (polls : Nat → Option FlushRun) :
    (run.flush validateTask polls).1.Conserved validateTask ∧
      ((run.flush validateTask polls).2 = .ready (.ok ()) →
        (run.flush validateTask polls).1.accepted =
          (writtenBatches (run.flush validateTask polls).1.events).flatten) := by
  cases hfailed : run.sink.failed with
  | true =>
      have hsame : run.flush validateTask polls =
          (run, .ready (.error .sinkFailed)) := by
        simp [SinkRun.flush, PgSink.pollFlushInner_failed polls hfailed]
      rw [hsame]
      exact ⟨h, by simp⟩
  | false =>
      have hinner : run.sink.pollFlushInner validateTask polls =
          run.sink.flushLoop validateTask polls 0 := by
        simp [PgSink.pollFlushInner, hfailed]
      have hflushed := run.sink.flushLoop_flushed polls 0 hfailed h.valid
      rw [← hinner] at hflushed
      have hnone := h.live hfailed
      have horder : run.accepted =
          (writtenBatches (run.flush validateTask polls).1.events).flatten ++
          (uncertainBatches (run.flush validateTask polls).1.events).flatten ++
          (run.flush validateTask polls).1.sink.held := by
        rw [h.order, hflushed.order]
        simp [SinkRun.flush, hnone]
      refine ⟨⟨horder, ?_, ?_, ?_, ?_, ?_⟩, ?_⟩
      · simp [SinkRun.flush, h.issued, hflushed.issued, hnone]
      · simpa [SinkRun.flush, hnone] using hflushed.single
      · intro task htask
        apply h.valid
        rw [hflushed.order]
        exact List.mem_append_right _ htask
      · intro hend
        have hfinal := hflushed.failed hend
        simpa [SinkRun.flush, hnone] using hfinal
      · intro hend
        simpa [SinkRun.flush, hnone] using hflushed.live hend
      · intro hcomplete
        obtain ⟨hheld, hend⟩ := hflushed.complete hcomplete
        have huncertain := hflushed.live hend
        change run.accepted = _
        rw [horder]
        simp [SinkRun.flush, hheld, huncertain, hnone]

/-- The calls that promise completion when they return `Ready(Ok)`. -/
def SinkCall.Completes (run : SinkRun α) : SinkCall α → Prop
  | .pollReady _ => run.sink.needsFlushBeforeReady = true
  | .pollFlush _ | .pollClose _ => True
  | .startSend _ | .retype => False

variable (validateTask) in
theorem SinkCall.Completes.step_eq {run : SinkRun α} {call : SinkCall α}
    (h : call.Completes run) :
    ∃ polls, run.step validateTask call = run.flush validateTask polls := by
  cases call with
  | pollReady polls =>
      have hneeds : run.sink.needsFlushBeforeReady = true := h
      exact ⟨polls, by simp [SinkRun.step, hneeds]⟩
  | pollFlush polls => exact ⟨polls, rfl⟩
  | pollClose polls => exact ⟨polls, rfl⟩
  | startSend item => exact h.elim
  | retype => exact h.elim

/-- An accepted task goes to the end of the buffer; a refused one goes
nowhere. -/
theorem SinkRun.Conserved.startSend {run : SinkRun α}
    (h : run.Conserved validateTask) (item : α) :
    (run.step validateTask (.startSend item)).1.Conserved validateTask := by
  simp only [SinkRun.step, PgSink.tryPush]
  cases hfailed : run.sink.failed with
  | true => exact h
  | false =>
      by_cases hfull : run.sink.capacity ≤ run.sink.buffer.length
      · simpa [hfull] using h
      · cases hitem : validateTask item with
        | error error => simpa [hfull, hitem] using h
        | ok value =>
            simp only [hfull, Bool.false_eq_true, ↓reduceIte]
            refine ⟨?_, h.issued, h.single, ?_, nofun, fun _ => h.live hfailed⟩
            · rw [h.order]
              simp [PgSink.held]
            · intro task htask
              simp only [PgSink.held, ← List.append_assoc,
                List.mem_append, List.mem_singleton] at htask
              rcases htask with hheld | rfl
              · exact h.valid task (List.mem_append.mpr hheld)
              · exact hitem

theorem SinkRun.Conserved.step {run : SinkRun α}
    (h : run.Conserved validateTask) (call : SinkCall α) :
    (run.step validateTask call).1.Conserved validateTask := by
  cases call with
  | pollReady polls =>
      simp only [SinkRun.step]
      split
      · exact (h.flush polls).1
      · exact h
  | startSend item => exact h.startSend item
  | pollFlush polls => exact (h.flush polls).1
  | pollClose polls => exact (h.flush polls).1
  | retype => exact h

theorem SinkRun.Conserved.steps {run : SinkRun α}
    (h : run.Conserved validateTask) (calls : List (SinkCall α)) :
    (run.steps validateTask calls).Conserved validateTask := by
  induction calls generalizing run with
  | nil => exact h
  | cons call rest ih => exact ih (h.step call)

/-- A failed pipeline answers every call with `SinkFailed` and keeps its
record. -/
theorem SinkRun.step_failed {run : SinkRun α}
    (hfailed : run.sink.failed = true) (call : SinkCall α) :
    (run.step validateTask call).1 = run ∧
      (call ≠ .retype →
        (run.step validateTask call).2 = .ready (.error .sinkFailed)) := by
  have hflush : ∀ polls, run.flush validateTask polls =
      (run, .ready (.error .sinkFailed)) := by
    intro polls
    simp [SinkRun.flush, PgSink.pollFlushInner_failed polls hfailed]
  cases call with
  | pollReady polls =>
      have hneeds : run.sink.needsFlushBeforeReady = true := by
        simp [PgSink.needsFlushBeforeReady, hfailed]
      simp [SinkRun.step, hneeds, hflush]
  | startSend item => simp [SinkRun.step, PgSink.tryPush, hfailed]
  | pollFlush polls => simp [SinkRun.step, hflush]
  | pollClose polls => simp [SinkRun.step, hflush]
  | retype => exact ⟨rfl, fun hne => absurd rfl hne⟩

variable (validateTask) in
theorem SinkRun.steps_failed {run : SinkRun α}
    (hfailed : run.sink.failed = true) (calls : List (SinkCall α)) :
    run.steps validateTask calls = run := by
  induction calls with
  | nil => rfl
  | cons call rest ih =>
      change (run.step validateTask call).1.steps validateTask rest = run
      rw [(SinkRun.step_failed hfailed call).1]
      exact ih

/-- Over every sequence of calls and of flush outcomes, the accepted tasks are
the written batches, then the uncertain or the in-flight one, then the
buffer; no accepted task is issued twice; a completed flush has written them
all; and an uncertain flush is the last thing the pipeline does. -/
theorem sink_conserves_tasks (validateTask : α → Except Error Unit)
    (bufferSize : Nat) (calls : List (SinkCall α)) :
    let run := (SinkRun.new bufferSize).steps validateTask calls
    (run.accepted = (writtenBatches run.events).flatten ++
      (uncertainBatches run.events).flatten ++
      run.sink.flushFuture.getD [] ++ run.sink.buffer) ∧
    (uncertainBatches run.events).length ≤ 1 ∧
    (uncertainBatches run.events ≠ [] → run.sink.flushFuture = none) ∧
    ((issuedBatches run.events).flatten <+: run.accepted) ∧
    (run.accepted.Nodup →
      (issuedBatches run.events).Pairwise List.Disjoint) ∧
    (∀ call, SinkCall.Completes run call →
      (run.step validateTask call).2 = .ready (.ok ()) →
      (run.step validateTask call).1.accepted =
        (writtenBatches (run.step validateTask call).1.events).flatten) ∧
    (uncertainBatches run.events ≠ [] → ∀ later call,
      run.steps validateTask later = run ∧
      ((run.steps validateTask later).step validateTask call).1 = run ∧
      (call ≠ .retype →
        ((run.steps validateTask later).step validateTask call).2 =
          .ready (.error .sinkFailed))) := by
  intro run
  have h : run.Conserved validateTask :=
    (SinkRun.Conserved.new bufferSize).steps calls
  have hfailed : uncertainBatches run.events ≠ [] → run.sink.failed = true := by
    intro huncertain
    cases hfailed : run.sink.failed with
    | true => rfl
    | false => exact absurd (h.live hfailed) huncertain
  have hwithin : (issuedBatches run.events).flatten <+: run.accepted := by
    rw [h.order, h.issued, List.flatten_append]
    exact List.prefix_append _ _
  refine ⟨?_, h.single, ?_, hwithin, ?_, ?_, ?_⟩
  · rw [h.order]
    simp [PgSink.held]
  · intro huncertain
    exact (h.failed (hfailed huncertain)).1
  · intro hnodup
    exact (List.nodup_flatten.mp (hnodup.sublist hwithin.sublist)).2
  · intro call hcall hready
    obtain ⟨polls, hstep⟩ := hcall.step_eq validateTask
    rw [hstep] at hready ⊢
    exact (h.flush polls).2 hready
  · intro huncertain later call
    have hsteps := SinkRun.steps_failed validateTask (hfailed huncertain) later
    rw [hsteps]
    exact ⟨rfl, SinkRun.step_failed (hfailed huncertain) call⟩

/-- Two tasks are accepted around a pending flush that then issues nothing;
the batch is handed back in front of them, written with the first of them,
and the rest fails in doubt. -/
theorem sink_conserves_tasks_in_doubt :
    let flight : Nat → Option FlushRun := fun _ => none
    let refused : Nat → Option FlushRun := fun _ => some (.poolError (.pool "timeout"))
    let written : Nat → Option FlushRun := fun _ => some (.issued (.ok ()))
    let lost : Nat → Option FlushRun := fun _ => some (.executorError true (.blocking "panic"))
    let calls : List (SinkCall Nat) := [.startSend 1, .pollFlush flight,
      .startSend 2, .pollFlush refused, .pollReady written, .pollClose written,
      .retype, .startSend 3, .pollFlush lost, .startSend 4]
    let run := (SinkRun.new 10).steps (fun _ => .ok ()) calls
    run.accepted = [1, 2, 3] ∧ writtenBatches run.events = [[1, 2]] ∧
      uncertainBatches run.events = [[3]] ∧
      (issuedBatches run.events).Pairwise List.Disjoint := by
  intro flight refused written lost calls run
  have haccepted : run.accepted = [1, 2, 3] := by decide +kernel
  refine ⟨haccepted, by decide +kernel, by decide +kernel, ?_⟩
  obtain ⟨_, _, _, _, hdisjoint, _⟩ :=
    sink_conserves_tasks (fun _ : Nat => .ok ()) 10 calls
  exact hdisjoint (by rw [haccepted]; decide)

end

end ApalisPostgres
