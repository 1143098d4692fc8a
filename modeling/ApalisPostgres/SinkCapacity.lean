/-
The memory bound of the sink.  A readiness grant may be followed by a flush
that moves the buffer in flight, so the buffer alone does not bound what the
pipeline holds.  What does is that a grant is given below capacity and only
`start_send` adds a task.
-/
import ApalisPostgres.TaskBatch
import Mathlib.Data.List.Induction

namespace ApalisPostgres

section

variable {α : Type} {validateTask : α → Except Error Unit}

@[simp] theorem PgSink.started_bufferSize (sink : PgSink α) :
    sink.started.bufferSize = sink.bufferSize := by
  unfold PgSink.started
  split <;> rfl

@[simp] theorem PgSink.settled_bufferSize (sink : PgSink α) :
    sink.settled.bufferSize = sink.bufferSize :=
  sink.started_bufferSize

theorem PgSink.flushLoop_bufferSize (polls : Nat → Option FlushRun) (n : Nat)
    (sink : PgSink α) :
    (sink.flushLoop validateTask polls n).sink.bufferSize =
      sink.bufferSize := by
  fun_induction PgSink.flushLoop validateTask polls n sink with
  | case1 | case2 | case3 | case4 | case5 => simp
  | case6 n sink hmore run hpoll hflush ih =>
      rw [PgSink.PollEnd.after, ih, PgSink.settled_bufferSize]

theorem SinkRun.flush_bufferSize (run : SinkRun α)
    (polls : Nat → Option FlushRun) :
    (run.flush validateTask polls).1.sink.bufferSize =
      run.sink.bufferSize := by
  simp only [SinkRun.flush, PgSink.pollFlushInner]
  split
  · rfl
  · exact PgSink.flushLoop_bufferSize polls 0 run.sink

theorem SinkRun.step_bufferSize (run : SinkRun α) (call : SinkCall α) :
    (run.step validateTask call).1.sink.bufferSize = run.sink.bufferSize := by
  cases call with
  | pollReady polls =>
      simp only [SinkRun.step]
      split
      · exact run.flush_bufferSize polls
      · rfl
  | startSend item =>
      simp only [SinkRun.step, PgSink.tryPush]
      cases run.sink.failed with
      | true => rfl
      | false =>
          by_cases hfull : run.sink.capacity ≤ run.sink.buffer.length
          · simp [hfull]
          · cases validateTask item <;> simp [hfull]
  | pollFlush polls => exact run.flush_bufferSize polls
  | pollClose polls => exact run.flush_bufferSize polls
  | retype => rfl

theorem SinkRun.steps_bufferSize (run : SinkRun α)
    (calls : List (SinkCall α)) :
    (run.steps validateTask calls).sink.bufferSize = run.sink.bufferSize := by
  induction calls generalizing run with
  | nil => rfl
  | cons call rest ih =>
      exact (ih (run.step validateTask call).1).trans
        (run.step_bufferSize call)

/-- A flush takes tasks away or leaves them. -/
theorem SinkRun.flush_held_le {run : SinkRun α}
    (h : run.Conserved validateTask) (polls : Nat → Option FlushRun) :
    (run.flush validateTask polls).1.sink.held.length ≤
      run.sink.held.length := by
  cases hfailed : run.sink.failed with
  | true =>
      rw [SinkRun.flush, PgSink.pollFlushInner_failed polls hfailed]
  | false =>
      have hflushed := run.sink.flushLoop_flushed polls 0 hfailed h.valid
      have horder := congrArg List.length hflushed.order
      rw [List.length_append] at horder
      simp only [SinkRun.flush, PgSink.pollFlushInner, hfailed,
        Bool.false_eq_true, if_false]
      omega

/-- No call but `start_send` adds a task. -/
theorem SinkRun.step_held_le {run : SinkRun α}
    (h : run.Conserved validateTask) {call : SinkCall α}
    (hcall : ∀ item, call ≠ .startSend item) :
    (run.step validateTask call).1.sink.held.length ≤
      run.sink.held.length := by
  cases call with
  | pollReady polls =>
      simp only [SinkRun.step]
      split
      · exact SinkRun.flush_held_le h polls
      · exact le_refl _
  | startSend item => exact absurd rfl (hcall item)
  | pollFlush polls => exact SinkRun.flush_held_le h polls
  | pollClose polls => exact SinkRun.flush_held_le h polls
  | retype => exact le_refl _

theorem SinkRun.steps_held_le {run : SinkRun α}
    (h : run.Conserved validateTask) (calls : List (SinkCall α))
    (hcalls : ∀ call ∈ calls, ∀ item, call ≠ .startSend item) :
    (run.steps validateTask calls).sink.held.length ≤
      run.sink.held.length := by
  induction calls generalizing run with
  | nil => exact le_refl _
  | cons call rest ih =>
      have hrest := ih (h.step call) fun other hother =>
        hcalls other (List.mem_cons_of_mem _ hother)
      exact hrest.trans (SinkRun.step_held_le h
        (hcalls call List.mem_cons_self))

/-- A readiness grant is given below capacity. -/
theorem SinkRun.pollReady_grants {run : SinkRun α}
    (h : run.Conserved validateTask) {polls : Nat → Option FlushRun}
    (hready : (run.step validateTask (.pollReady polls)).2 =
      .ready (.ok ())) :
    (run.step validateTask (.pollReady polls)).1.sink.held.length <
      run.sink.capacity := by
  simp only [SinkRun.step] at hready ⊢
  split at hready
  · rename_i hneeds
    rw [if_pos hneeds]
    cases hfailed : run.sink.failed with
    | true =>
        rw [SinkRun.flush, PgSink.pollFlushInner_failed polls hfailed] at hready
        cases hready
    | false =>
        have hflushed := run.sink.flushLoop_flushed polls 0 hfailed h.valid
        simp only [SinkRun.flush, PgSink.pollFlushInner, hfailed,
          Bool.false_eq_true, if_false] at hready ⊢
        rw [(hflushed.complete hready).1]
        exact Nat.lt_of_lt_of_le Nat.zero_lt_one (Nat.le_max_right _ _)
  · rename_i hneeds
    rw [if_neg hneeds]
    simp only [PgSink.needsFlushBeforeReady, Bool.or_eq_true, not_or,
      decide_eq_true_eq, Option.not_isSome_iff_eq_none, not_le] at hneeds
    simpa [PgSink.held, hneeds.1.2] using hneeds.2

/-- `start_send` adds one task at most. -/
theorem SinkRun.startSend_held_le (run : SinkRun α) (item : α) :
    (run.step validateTask (.startSend item)).1.sink.held.length ≤
      run.sink.held.length + 1 := by
  simp only [SinkRun.step, PgSink.tryPush]
  cases run.sink.failed with
  | true => exact Nat.le_succ _
  | false =>
      by_cases hfull : run.sink.capacity ≤ run.sink.buffer.length
      · simp [hfull]
      · cases validateTask item with
        | error error => simp [hfull]
        | ok value =>
            simp [hfull, PgSink.held]
            omega

/-- The last `start_send` is followed by a readiness grant. -/
def SinkRun.Granted (validateTask : α → Except Error Unit) (bufferSize : Nat)
    (calls : List (SinkCall α)) : Prop :=
  ∃ earlier polls later, calls = earlier ++ .pollReady polls :: later ∧
    (∀ call ∈ later, ∀ item, call ≠ .startSend item) ∧
    (((SinkRun.new bufferSize).steps validateTask earlier).step validateTask
      (.pollReady polls)).2 = .ready (.ok ())

theorem SinkRun.steps_append (run : SinkRun α)
    (first second : List (SinkCall α)) :
    run.steps validateTask (first ++ second) =
      (run.steps validateTask first).steps validateTask second :=
  List.foldl_append

/-- Whatever follows a grant short of a `start_send`, there is room. -/
theorem SinkRun.Granted.held_lt {bufferSize : Nat}
    {calls : List (SinkCall α)}
    (h : SinkRun.Granted validateTask bufferSize calls) :
    ((SinkRun.new bufferSize).steps validateTask calls).sink.held.length <
      max bufferSize 1 := by
  obtain ⟨earlier, polls, later, rfl, hlater, hready⟩ := h
  have hconserved : ((SinkRun.new bufferSize).steps validateTask
      earlier).Conserved validateTask :=
    (SinkRun.Conserved.new bufferSize).steps earlier
  have hgrant := SinkRun.pollReady_grants hconserved hready
  have hafter := SinkRun.steps_held_le (hconserved.step (.pollReady polls))
    later hlater
  rw [PgSink.capacity, SinkRun.steps_bufferSize] at hgrant
  rw [SinkRun.steps_append]
  exact hafter.trans_lt hgrant

end

namespace Push

variable {toText : Json → Except String String} {queue : String}
  {task : SubmittedTask}

/-- With room in the buffer, `start_send` does not report it full. -/
theorem tryPush_ne_sinkBufferFull {sink : PgSink SubmittedTask}
    (hroom : sink.buffer.length < sink.capacity) (capacity : Nat) :
    (sink.tryPush (validateTask toText queue) task).2 ≠
      .error (.sinkBufferFull capacity) := by
  intro h
  unfold PgSink.tryPush at h
  split at h
  · cases h
  · rw [if_neg (Nat.not_le.mpr hroom)] at h
    split at h
    · rename_i refused hrefused
      cases h
      obtain ⟨message, hmessage⟩ := validateTask_error hrefused
      cases hmessage
    · cases h

/-- Over every sequence of calls in which a readiness grant precedes each
`start_send`, and every sequence of flush outcomes, the in-flight batch and
the buffer together stay within the capacity after every call, and no
`start_send` finds the buffer full. -/
theorem sink_stays_within_capacity (toText : Json → Except String String)
    (queue : String) (bufferSize : Nat)
    (calls : List (SinkCall SubmittedTask))
    (hgranted : ∀ before item after,
      calls = before ++ .startSend item :: after →
      SinkRun.Granted (validateTask toText queue) bufferSize before) :
    (∀ before after, calls = before ++ after →
      (((SinkRun.new bufferSize).steps (validateTask toText queue)
          before).sink.flushFuture.getD []).length +
        ((SinkRun.new bufferSize).steps (validateTask toText queue)
          before).sink.buffer.length ≤ max bufferSize 1) ∧
    ∀ before item after, calls = before ++ .startSend item :: after →
      ∀ capacity, (((SinkRun.new bufferSize).steps
          (validateTask toText queue) before).step
            (validateTask toText queue) (.startSend item)).2 ≠
        .ready (.error (.sinkBufferFull capacity)) := by
  constructor
  · intro before
    induction before using List.reverseRecOn with
    | nil =>
        intro after _
        exact Nat.zero_le _
    | append_singleton before call ih =>
        intro after hcalls
        rw [List.append_assoc, List.singleton_append] at hcalls
        have hbound := ih (call :: after) hcalls
        rw [← List.length_append] at hbound ⊢
        rw [SinkRun.steps_append]
        have hconserved : ((SinkRun.new bufferSize).steps
            (validateTask toText queue) before).Conserved
              (validateTask toText queue) :=
          (SinkRun.Conserved.new bufferSize).steps before
        by_cases hsend : ∃ item, call = .startSend item
        · obtain ⟨item, rfl⟩ := hsend
          -- the grant left room for the one task that is added
          have hroom := (hgranted before item after hcalls).held_lt
          exact (SinkRun.startSend_held_le _ item).trans hroom
        · have hother : ∀ item, call ≠ .startSend item :=
            fun item hitem => hsend ⟨item, hitem⟩
          exact (SinkRun.step_held_le hconserved hother).trans hbound
  · intro before item after hcalls capacity hfull
    have hroom := (hgranted before item after hcalls).held_lt
    rw [PgSink.held, List.length_append] at hroom
    have hbuffer : ((SinkRun.new bufferSize).steps (validateTask toText queue)
        before).sink.buffer.length < ((SinkRun.new bufferSize).steps
          (validateTask toText queue) before).sink.capacity := by
      rw [PgSink.capacity, SinkRun.steps_bufferSize]
      exact Nat.lt_of_le_of_lt (Nat.le_add_left _ _) hroom
    have hpush : (((SinkRun.new bufferSize).steps (validateTask toText queue)
        before).sink.tryPush (validateTask toText queue) item).2 ≠
          .error (.sinkBufferFull capacity) :=
      tryPush_ne_sinkBufferFull hbuffer capacity
    simp only [SinkRun.step] at hfull
    split at hfull
    · cases hfull
    · rename_i hrefused
      cases hfull
      exact hpush (congrArg Prod.snd hrefused)

/-- The second grant is used after a flush took the first task in flight, and
that flush then hands it back: two tasks are held, the capacity. -/
theorem sink_stays_within_capacity_handed_back :
    let toText : Json → Except String String := fun _ => .ok "\x7b\x7d"
    let task : SubmittedTask := ⟨[1], none, 60, 3, 7, [], none⟩
    let flight : Nat → Option FlushRun := fun _ => none
    let refused : Nat → Option FlushRun :=
      fun _ => some (.poolError (.pool "timeout"))
    let calls : List (SinkCall SubmittedTask) := [.pollReady flight,
      .startSend task, .pollReady flight, .pollFlush flight, .startSend task,
      .pollFlush refused]
    let sink := ((SinkRun.new 2).steps (validateTask toText "queue")
      calls).sink
    sink.flushFuture = none ∧ sink.buffer.length = 2 ∧
      (sink.flushFuture.getD []).length + sink.buffer.length ≤ 2 := by
  intro toText task flight refused calls sink
  have hgranted : ∀ before item after,
      calls = before ++ .startSend item :: after →
      SinkRun.Granted (validateTask toText "queue") 2 before := by
    intro before item after hcalls
    simp only [calls, List.cons_eq_append_iff, List.nil_eq_append_iff,
      List.cons.injEq, reduceCtorEq, SinkCall.startSend.injEq, false_and,
      and_false, false_or, or_false, exists_false] at hcalls
    obtain ⟨_, rfl, ⟨rfl, _⟩ | ⟨_, rfl, _, rfl, _, rfl, rfl, _⟩⟩ := hcalls
    · exact ⟨[], flight, [], rfl, by simp, by decide +kernel⟩
    · exact ⟨[.pollReady flight, .startSend task], flight,
        [.pollFlush flight], rfl, by simp, by decide +kernel⟩
  obtain ⟨hbound, _⟩ := sink_stays_within_capacity toText "queue" 2 calls
    hgranted
  exact ⟨by decide +kernel, by decide +kernel,
    hbound calls [] (List.append_nil _).symm⟩

end Push

end ApalisPostgres
