/-
The listener thread of one queue, as `notify_task_ids` spawns it.  All that
its stream can see of it is what `NotifyTaskIds.machine` allows: the thread
sends ids, publishes at most one failure, and then drops its sender.  It never
leaves in silence: its stream was dropped, or a failure was published.
-/
import ApalisPostgres.NotifyIds

namespace ApalisPostgres

open RowStore

/-- Where the thread is.  `leaving` is the way from its last statement to the
drop of its sender. -/
inductive NotifyThread where
  | connecting
  | subscribing
  | looping
  | delivering (ids : List String)
  | failing (error : Error)
  | publishing
  | leaving
  | exited
deriving Repr, DecidableEq

/-- The thread still has its sender and is not within `publish`. -/
def NotifyThread.outside : NotifyThread → Bool
  | .publishing | .exited => false
  | _ => true

theorem NotifyThread.ne_of_outside {thread : NotifyThread}
    (h : thread.outside = true) : thread ≠ .publishing ∧ thread ≠ .exited := by
  constructor <;> rintro rfl <;> cases h

/-- The thread of one queue and the stream it feeds; `cancelled` once the
stream is dropped. -/
structure NotifyListener where
  queue : String
  thread : NotifyThread
  cancelled : Bool
  source : NotifyTaskIds String

inductive ListenerEvent where
  | checkout (result : Except String Unit)
  | listen (result : Except DieselError Unit)
  | receive (notification : Except DieselError (Option InsertEvent))
  | notice
  | deliver
  | publish
  | takeWaker
  | wake
  | exit
  | poll (event : NotifyEvent String)
  | drop

/-- The events of `poll_next`. -/
def NotifyEvent.ofConsumer {Id : Type} : NotifyEvent Id → Bool
  | .startPoll _ | .takeError | .pollReceiver | .registerAgain _
  | .takeErrorAgain => true
  | .trySend _ | .publish _ | .takeWaker | .wake | .dropSender => false

namespace NotifyListener

def spawned (queue : String) (capacity : Nat) : NotifyListener :=
  ⟨queue, .connecting, false, .new capacity⟩

/-- The thread acts on what it shares with the stream and goes on. -/
def act (listener : NotifyListener) (event : NotifyEvent String)
    (next : NotifyThread) : Option NotifyListener :=
  (listener.source.step event).map fun source =>
    { listener with source := source, thread := next }

/-- One notification, as the loop sees it; a payload that is no `InsertEvent`
is skipped. -/
def receive (listener : NotifyListener) :
    Except DieselError (Option InsertEvent) → NotifyThread
  | .error error =>
      .failing (.database "receiving PostgreSQL notification" error)
  | .ok none => .looping
  | .ok (some event) =>
      let (eventQueue, ids) := event.intoIds
      if eventQueue ≠ listener.queue then .looping else .delivering ids

def step (listener : NotifyListener) :
    ListenerEvent → Option NotifyListener
  | .checkout result =>
      match listener.thread, result with
      | .connecting, .ok _ => some { listener with thread := .subscribing }
      | .connecting, .error message =>
          some { listener with thread := .failing (.pool message) }
      | _, _ => none
  | .listen result =>
      match listener.thread, result with
      | .subscribing, .ok _ => some { listener with thread := .looping }
      | .subscribing, .error error =>
          some { listener with
            thread := .failing (.database
              "starting PostgreSQL LISTEN notification listener" error) }
      | _, _ => none
  | .receive notification =>
      match listener.thread with
      | .looping =>
          if listener.cancelled then some { listener with thread := .leaving }
          else some
            { listener with thread := listener.receive notification }
      | _ => none
  | .notice =>
      match listener.thread with
      | .looping =>
          if listener.cancelled then some { listener with thread := .leaving }
          else some listener
      | _ => none
  | .deliver =>
      match listener.thread with
      | .delivering [] => some { listener with thread := .looping }
      | .delivering (id :: rest) =>
          -- `classify_delivery`: gone, full, or delivered.
          if listener.cancelled then some { listener with thread := .leaving }
          else if listener.source.capacity < listener.source.hints.length then
            listener.act (.trySend id) .looping
          else listener.act (.trySend id) (.delivering rest)
      | _ => none
  | .publish =>
      match listener.thread with
      | .failing error => listener.act (.publish error) .publishing
      | _ => none
  | .takeWaker =>
      match listener.thread with
      | .publishing => listener.act .takeWaker .publishing
      | _ => none
  | .wake =>
      match listener.thread with
      | .publishing => listener.act .wake .leaving
      | _ => none
  | .exit =>
      match listener.thread with
      | .leaving => listener.act .dropSender .exited
      | _ => none
  | .poll event =>
      if !listener.cancelled && event.ofConsumer then
        listener.act event listener.thread
      else none
  | .drop =>
      if listener.source.poll = .idle then
        some { listener with cancelled := true }
      else none

def machine : Machine NotifyListener ListenerEvent where
  Initial listener := ∃ queue capacity, listener = spawned queue capacity
  step := step

variable {listener after : NotifyListener}

/-- The event leaves the stream alone, or it is one of its events. -/
def Advances (listener after : NotifyListener) : Prop :=
  after.source = listener.source ∨
    ∃ event, listener.source.step event = some after.source

/-- All that an event can do, seen from the thread. -/
inductive Moves (listener : NotifyListener) : NotifyListener → Prop
  | internal {next : NotifyThread} (hfrom : listener.thread.outside = true)
      (hnext : next.outside = true)
      (hleaves : next = .leaving → listener.cancelled = true) :
      Moves listener { listener with thread := next }
  | sent {id : String} {next : NotifyThread} {source : NotifyTaskIds String}
      (hnext : next.outside = true) (hstays : next ≠ .leaving)
      (hstep : listener.source.step (.trySend id) = some source) :
      Moves listener { listener with source := source, thread := next }
  | published {error : Error} {source : NotifyTaskIds String}
      (hfrom : listener.thread = .failing error)
      (hstep : listener.source.step (.publish error) = some source) :
      Moves listener
        { listener with source := source, thread := .publishing }
  | tookWaker {source : NotifyTaskIds String}
      (hfrom : listener.thread = .publishing)
      (hstep : listener.source.step .takeWaker = some source) :
      Moves listener
        { listener with source := source, thread := .publishing }
  | woke {source : NotifyTaskIds String}
      (hfrom : listener.thread = .publishing)
      (hstep : listener.source.step .wake = some source) :
      Moves listener { listener with source := source, thread := .leaving }
  | left {source : NotifyTaskIds String} (hfrom : listener.thread = .leaving)
      (hstep : listener.source.step .dropSender = some source) :
      Moves listener { listener with source := source, thread := .exited }
  | polled {event : NotifyEvent String} {source : NotifyTaskIds String}
      (hconsumer : event.ofConsumer = true)
      (hstep : listener.source.step event = some source) :
      Moves listener { listener with source := source }
  | dropped : Moves listener { listener with cancelled := true }

theorem receive_outside (listener : NotifyListener)
    (notification : Except DieselError (Option InsertEvent)) :
    (listener.receive notification).outside = true ∧
      listener.receive notification ≠ .leaving := by
  cases notification with
  | error error => exact ⟨rfl, nofun⟩
  | ok payload =>
      cases payload with
      | none => exact ⟨rfl, nofun⟩
      | some event =>
          simp only [receive]
          split
          · exact ⟨rfl, nofun⟩
          · exact ⟨rfl, nofun⟩

theorem deliver_moves {ids : List String}
    (hthread : listener.thread = .delivering ids)
    (h : listener.step .deliver = some after) : listener.Moves after := by
  have houtside : listener.thread.outside = true := by
    rw [hthread]
    rfl
  cases ids with
  | nil =>
      simp only [step, hthread] at h
      cases h
      exact .internal houtside rfl nofun
  | cons id rest =>
      simp only [step, hthread] at h
      split at h
      · rename_i hcancelled
        cases h
        exact .internal houtside rfl fun _ => hcancelled
      · split at h
        · obtain ⟨source, hstep, rfl⟩ := Option.map_eq_some_iff.mp h
          exact .sent rfl nofun hstep
        · obtain ⟨source, hstep, rfl⟩ := Option.map_eq_some_iff.mp h
          exact .sent rfl nofun hstep

theorem step_moves {event : ListenerEvent}
    (h : listener.step event = some after) : listener.Moves after := by
  cases event with
  | checkout result =>
      simp only [step] at h
      split at h
      · rename_i hthread
        cases h
        exact .internal (by rw [hthread]; rfl) rfl nofun
      · rename_i hthread
        cases h
        exact .internal (by rw [hthread]; rfl) rfl nofun
      · cases h
  | listen result =>
      simp only [step] at h
      split at h
      · rename_i hthread
        cases h
        exact .internal (by rw [hthread]; rfl) rfl nofun
      · rename_i hthread
        cases h
        exact .internal (by rw [hthread]; rfl) rfl nofun
      · cases h
  | receive notification =>
      simp only [step] at h
      split at h
      · rename_i hthread
        split at h
        · rename_i hcancelled
          cases h
          exact .internal (by rw [hthread]; rfl) rfl fun _ => hcancelled
        · cases h
          obtain ⟨houtside, hstays⟩ := listener.receive_outside notification
          exact .internal (by rw [hthread]; rfl) houtside
            fun hleaving => absurd hleaving hstays
      · cases h
  | notice =>
      simp only [step] at h
      split at h
      · rename_i hthread
        split at h
        · rename_i hcancelled
          cases h
          exact .internal (by rw [hthread]; rfl) rfl fun _ => hcancelled
        · cases h
          have houtside : listener.thread.outside = true := by
            rw [hthread]
            rfl
          have hsame : listener.Moves { listener with
              thread := listener.thread } :=
            .internal houtside houtside fun hleaving => by
              rw [hthread] at hleaving
              cases hleaving
          exact hsame
      · cases h
  | deliver =>
      cases hthread : listener.thread with
      | delivering ids => exact deliver_moves hthread h
      | _ => simp [step, hthread] at h
  | publish =>
      simp only [step] at h
      split at h
      · rename_i error hthread
        obtain ⟨source, hstep, rfl⟩ := Option.map_eq_some_iff.mp h
        exact .published hthread hstep
      · cases h
  | takeWaker =>
      simp only [step] at h
      split at h
      · rename_i hthread
        obtain ⟨source, hstep, rfl⟩ := Option.map_eq_some_iff.mp h
        exact .tookWaker hthread hstep
      · cases h
  | wake =>
      simp only [step] at h
      split at h
      · rename_i hthread
        obtain ⟨source, hstep, rfl⟩ := Option.map_eq_some_iff.mp h
        exact .woke hthread hstep
      · cases h
  | exit =>
      simp only [step] at h
      split at h
      · rename_i hthread
        obtain ⟨source, hstep, rfl⟩ := Option.map_eq_some_iff.mp h
        exact .left hthread hstep
      · cases h
  | poll event =>
      simp only [step, Option.ite_none_right_eq_some] at h
      obtain ⟨hallowed, h⟩ := h
      obtain ⟨source, hstep, rfl⟩ := Option.map_eq_some_iff.mp h
      exact .polled (Bool.and_eq_true_iff.mp hallowed).2 hstep
  | drop =>
      simp only [step, Option.ite_none_right_eq_some] at h
      obtain ⟨-, h⟩ := h
      cases h
      exact .dropped

theorem Moves.advances (h : listener.Moves after) :
    listener.Advances after := by
  cases h with
  | internal hfrom hnext hleaves => exact Or.inl rfl
  | sent hnext hstays hstep => exact Or.inr ⟨_, hstep⟩
  | published hfrom hstep => exact Or.inr ⟨_, hstep⟩
  | tookWaker hfrom hstep => exact Or.inr ⟨_, hstep⟩
  | woke hfrom hstep => exact Or.inr ⟨_, hstep⟩
  | left hfrom hstep => exact Or.inr ⟨_, hstep⟩
  | polled hconsumer hstep => exact Or.inr ⟨_, hstep⟩
  | dropped => exact Or.inl rfl

/-- Whatever the thread does, its stream is in a state of the machine. -/
theorem reachable_source (h : machine.Reachable listener) :
    NotifyTaskIds.machine.Reachable listener.source := by
  refine h.invariant
    (fun listener => NotifyTaskIds.machine.Reachable listener.source) ?_ ?_
  · rintro start ⟨queue, capacity, rfl⟩
    exact ⟨_, ⟨capacity, Or.inl rfl⟩, Relation.ReflTransGen.refl⟩
  · intro state next event hreachable hstep
    rcases (step_moves hstep).advances with hsame | ⟨moved, hmoved⟩
    · rw [hsame]
      exact hreachable
    · exact hreachable.step hmoved

/-- The thread is outside `publish`, within it, or gone. -/
structure Paced (listener : NotifyListener) : Prop where
  outside : listener.thread.outside = true →
    listener.source.publisher = .free
  publishing : listener.thread = .publishing →
    listener.source.publisher = .stored ∨
      ∃ waker, listener.source.publisher = .signalling waker

/-- A poll does not touch the publication. -/
theorem publisher_of_consumer {source next : NotifyTaskIds String}
    {event : NotifyEvent String} (hconsumer : event.ofConsumer = true)
    (hstep : source.step event = some next) :
    next.publisher = source.publisher := by
  cases event with
  | startPoll atOnce =>
      simp only [NotifyTaskIds.step, Option.ite_none_right_eq_some] at hstep
      obtain ⟨-, hstep⟩ := hstep
      cases hstep
      rfl
  | registerAgain atOnce =>
      simp only [NotifyTaskIds.step, Option.ite_none_right_eq_some] at hstep
      obtain ⟨-, hstep⟩ := hstep
      cases hstep
      rfl
  | takeError =>
      simp only [NotifyTaskIds.step, Option.ite_none_right_eq_some] at hstep
      obtain ⟨-, hstep⟩ := hstep
      cases hstep
      rw [NotifyTaskIds.take]
      split
      · rfl
      · rfl
  | takeErrorAgain =>
      simp only [NotifyTaskIds.step, Option.ite_none_right_eq_some] at hstep
      obtain ⟨-, hstep⟩ := hstep
      cases hstep
      rw [NotifyTaskIds.take]
      split
      · rfl
      · rfl
  | pollReceiver =>
      simp only [NotifyTaskIds.step, Option.ite_none_right_eq_some] at hstep
      obtain ⟨-, hstep⟩ := hstep
      split at hstep
      · cases hstep
        rfl
      · split at hstep
        · cases hstep
          rfl
        · cases hstep
          rfl
  | _ => cases hconsumer

theorem Paced.step (h : listener.Paced) (hmove : listener.Moves after) :
    after.Paced := by
  cases hmove with
  | @internal next hfrom hnext hleaves =>
      refine ⟨fun _ => h.outside hfrom, ?_⟩
      intro hpublishing
      exact absurd hpublishing (NotifyThread.ne_of_outside hnext).1
  | @sent id next source hnext hstays hstep =>
      simp only [NotifyTaskIds.step, Option.ite_none_right_eq_some] at hstep
      obtain ⟨hfree, hstep⟩ := hstep
      have hstill : source.publisher = .free := by
        split at hstep
        · cases hstep
          exact hfree
        · cases hstep
          exact hfree
      refine ⟨fun _ => hstill, ?_⟩
      intro hpublishing
      exact absurd hpublishing (NotifyThread.ne_of_outside hnext).1
  | published hfrom hstep =>
      simp only [NotifyTaskIds.step, Option.ite_none_right_eq_some] at hstep
      obtain ⟨-, hstep⟩ := hstep
      cases hstep
      refine ⟨?_, fun _ => Or.inl rfl⟩
      intro houtside
      cases houtside
  | tookWaker hfrom hstep =>
      simp only [NotifyTaskIds.step, Option.ite_none_right_eq_some] at hstep
      obtain ⟨-, hstep⟩ := hstep
      cases hstep
      refine ⟨?_, fun _ => Or.inr ⟨_, rfl⟩⟩
      intro houtside
      cases houtside
  | woke hfrom hstep =>
      simp only [NotifyTaskIds.step] at hstep
      split at hstep
      · cases hstep
        refine ⟨fun _ => rfl, ?_⟩
        intro hpublishing
        cases hpublishing
      · cases hstep
  | left hfrom hstep =>
      refine ⟨?_, ?_⟩
      · intro houtside
        cases houtside
      · intro hpublishing
        cases hpublishing
  | polled hconsumer hstep =>
      have hsame := publisher_of_consumer hconsumer hstep
      refine ⟨fun houtside => hsame.trans (h.outside houtside), ?_⟩
      intro hpublishing
      show _ ∨ _
      rw [hsame]
      exact h.publishing hpublishing
  | dropped => exact ⟨h.outside, h.publishing⟩

theorem reachable_paced (h : machine.Reachable listener) : listener.Paced := by
  refine h.invariant Paced ?_ fun hpaced hstep => hpaced.step (step_moves hstep)
  rintro start ⟨queue, capacity, rfl⟩
  refine ⟨fun _ => rfl, ?_⟩
  intro hpublishing
  cases hpublishing

/-- What was published of failures stays on record. -/
theorem marks_kept {source next : NotifyTaskIds String}
    {event : NotifyEvent String} (hstep : source.step event = some next) :
    ∀ mark ∈ source.marks, mark ∈ next.marks := by
  intro mark hmark
  have htake : ∀ otherwise : NotifyTaskIds String,
      otherwise.marks = source.marks →
      mark ∈ (source.take otherwise).marks := by
    intro otherwise hsame
    unfold NotifyTaskIds.take
    split
    · exact List.mem_append_left _ hmark
    · rw [hsame]
      exact hmark
  cases event with
  | trySend id =>
      simp only [NotifyTaskIds.step, Option.ite_none_right_eq_some] at hstep
      obtain ⟨-, hstep⟩ := hstep
      split at hstep <;> cases hstep <;> exact hmark
  | publish error =>
      simp only [NotifyTaskIds.step, Option.ite_none_right_eq_some] at hstep
      obtain ⟨-, hstep⟩ := hstep
      cases hstep
      exact List.mem_append_left _ hmark
  | wake =>
      simp only [NotifyTaskIds.step] at hstep
      split at hstep
      · cases hstep
        exact hmark
      · cases hstep
  | takeWaker | dropSender | startPoll _ | registerAgain _ =>
      simp only [NotifyTaskIds.step, Option.ite_none_right_eq_some] at hstep
      obtain ⟨-, hstep⟩ := hstep
      cases hstep
      exact hmark
  | takeError =>
      simp only [NotifyTaskIds.step, Option.ite_none_right_eq_some] at hstep
      obtain ⟨-, hstep⟩ := hstep
      cases hstep
      exact htake _ rfl
  | takeErrorAgain =>
      simp only [NotifyTaskIds.step, Option.ite_none_right_eq_some] at hstep
      obtain ⟨-, hstep⟩ := hstep
      cases hstep
      unfold NotifyTaskIds.take
      split
      · exact List.mem_append_left _ hmark
      · exact hmark
  | pollReceiver =>
      simp only [NotifyTaskIds.step, Option.ite_none_right_eq_some] at hstep
      obtain ⟨-, hstep⟩ := hstep
      split at hstep
      · cases hstep
        exact hmark
      · split at hstep <;> cases hstep <;> exact hmark

/-- A failure of the listener is on record. -/
def Published (source : NotifyTaskIds String) : Prop :=
  ∃ error, FailureMark.published error ∈ source.marks

theorem Published.step {source next : NotifyTaskIds String}
    {event : NotifyEvent String} (h : Published source)
    (hstep : source.step event = some next) : Published next := by
  obtain ⟨error, hmark⟩ := h
  exact ⟨error, marks_kept hstep _ hmark⟩

/-- The thread is past its loop for a reason: nobody listens, or it
published a failure. -/
structure Heard (listener : NotifyListener) : Prop where
  publishing : listener.thread = .publishing → Published listener.source
  left : listener.thread = .leaving ∨ listener.thread = .exited →
    listener.cancelled = true ∨ Published listener.source

theorem Heard.step (h : listener.Heard) (hmove : listener.Moves after) :
    after.Heard := by
  cases hmove with
  | @internal next hfrom hnext hleaves =>
      constructor
      · intro hpublishing
        exact absurd hpublishing (NotifyThread.ne_of_outside hnext).1
      · rintro (hleaving | hexited)
        · exact Or.inl (hleaves hleaving)
        · exact absurd hexited (NotifyThread.ne_of_outside hnext).2
  | @sent id next source hnext hstays hstep =>
      constructor
      · intro hpublishing
        exact absurd hpublishing (NotifyThread.ne_of_outside hnext).1
      · rintro (hleaving | hexited)
        · exact absurd hleaving hstays
        · exact absurd hexited (NotifyThread.ne_of_outside hnext).2
  | @published error source hfrom hstep =>
      have hpublished : Published source := by
        simp only [NotifyTaskIds.step, Option.ite_none_right_eq_some] at hstep
        obtain ⟨-, hstep⟩ := hstep
        cases hstep
        exact ⟨error, by simp⟩
      exact ⟨fun _ => hpublished, fun _ => Or.inr hpublished⟩
  | tookWaker hfrom hstep =>
      have hpublished := (h.publishing hfrom).step hstep
      exact ⟨fun _ => hpublished, fun _ => Or.inr hpublished⟩
  | woke hfrom hstep =>
      have hpublished := (h.publishing hfrom).step hstep
      exact ⟨fun _ => hpublished, fun _ => Or.inr hpublished⟩
  | left hfrom hstep =>
      constructor
      · intro hpublishing
        cases hpublishing
      intro _
      rcases h.left (Or.inl hfrom) with hcancelled | hpublished
      · exact Or.inl hcancelled
      · exact Or.inr (hpublished.step hstep)
  | polled hconsumer hstep =>
      refine ⟨fun hpublishing => (h.publishing hpublishing).step hstep, ?_⟩
      intro hleft
      rcases h.left hleft with hcancelled | hpublished
      · exact Or.inl hcancelled
      · exact Or.inr (hpublished.step hstep)
  | dropped => exact ⟨h.publishing, fun _ => Or.inl rfl⟩

theorem reachable_heard (h : machine.Reachable listener) : listener.Heard := by
  refine h.invariant Heard ?_ fun hheard hstep => hheard.step (step_moves hstep)
  rintro start ⟨queue, capacity, rfl⟩
  refine ⟨nofun, ?_⟩
  rintro (hleaving | hexited)
  · cases hleaving
  · cases hexited

/-- A thread that failed gets its failure out and then drops its sender,
whatever its stream is doing. -/
theorem failing_thread_leaves (h : machine.Reachable listener)
    {error : Error} (hfailing : listener.thread = .failing error) :
    ∃ after, machine.run listener [.publish, .takeWaker, .wake, .exit] =
        some after ∧ after.source.publisher = .gone ∧
      after.source.marks = listener.source.marks ++ [.published error] := by
  have hfree : listener.source.publisher = .free :=
    (reachable_paced h).outside (by rw [hfailing]; rfl)
  let source : NotifyTaskIds String := { listener.source with
    publisher := .gone
    pending := some (listener.source.pending.getD error)
    marks := listener.source.marks ++ [.published error]
    waker := none
    woken := listener.source.woken ||
      decide (listener.source.waker = some listener.source.polls) }
  refine ⟨{ listener with source := source, thread := .exited }, ?_, rfl, rfl⟩
  simp [Machine.run, machine, step, act, NotifyTaskIds.step, hfailing, hfree,
    source]

/-- The thread of a queue and its stream, in every interleaving.  What the
stream sees is a run of its own machine, so that it yields what was sent and
every failure that was published.  The thread leaves its loop only if the stream
was dropped or a failure was published; and one that met a failure publishes it,
wakes the task that waits and drops its sender in four steps of its own,
whatever the stream is doing. -/
theorem listener_thread_heard (h : machine.Reachable listener) :
    NotifyTaskIds.machine.Reachable listener.source ∧
    (listener.thread = .leaving ∨ listener.thread = .exited →
      listener.cancelled = true ∨ Published listener.source) ∧
    ∀ error, listener.thread = .failing error →
      ∃ after, machine.run listener [.publish, .takeWaker, .wake, .exit] =
          some after ∧ after.source.publisher = .gone ∧
        after.source.marks = listener.source.marks ++ [.published error] :=
  ⟨reachable_source h, (reachable_heard h).left,
    fun _ hfailing => failing_thread_leaves h hfailing⟩

/-- The connection breaks while a poll is under way: its failure is published,
and the thread is gone. -/
theorem listener_thread_heard_broken :
    ∃ listener : NotifyListener, machine.Reachable listener ∧
      listener.thread = .exited ∧ listener.cancelled = false ∧
      Published listener.source := by
  let events : List ListenerEvent := [.checkout (.ok ()), .listen (.ok ()),
    .poll (.startPoll false), .receive (.error (.databaseError
      .closedConnection "closed")), .poll .takeError, .publish, .takeWaker,
    .wake, .exit]
  let listener : NotifyListener :=
    (machine.run (spawned "queue" 1) events).get rfl
  have hrun : machine.run (spawned "queue" 1) events = some listener := rfl
  have hreached : machine.Reachable listener :=
    ⟨_, ⟨"queue", 1, rfl⟩, Machine.follows_of_run events hrun⟩
  refine ⟨listener, hreached, rfl, rfl, ?_⟩
  rcases (listener_thread_heard hreached).2.1 (Or.inr rfl) with
    hcancelled | hpublished
  · cases hcancelled
  · exact hpublished

end NotifyListener

end ApalisPostgres
