/-
The polling fetcher.  A permit of the poll strategy starts one fetch, a
fetched batch is handed out task by task, and only a drained buffer returns
to the strategy.  One turn of the loop is one step; a call of `poll_next` is
the turns up to the first that returns.
-/
import ApalisPostgres.Errors

namespace ApalisPostgres

/-- What a poll of the strategy stream answers. -/
inductive StrategyPoll where
  | pending
  | permit
  | exhausted
deriving Repr, DecidableEq

inductive StreamState (α : Type) where
  | waitForPoll
  | ended
  | fetch
  | buffered (buffer : List α)
deriving Repr, DecidableEq

/-- `Poll<Option<Result<Option<Task>, Error>>>`; the fetcher yields no empty
marker. -/
inductive FetchPoll (α : Type) where
  | pending
  | ended
  | task (task : α)
  | error (error : Error)
deriving DecidableEq

/-- What happened, in order. -/
inductive FetchEvent (α : Type) where
  | permitted
  | started
  | fetched (batch : List α)
  | failed (error : Error)
  | exhausted
  | returned (poll : FetchPoll α)
deriving DecidableEq

/-- The strategy and the fetches, by the polls the fetcher makes: `none` is a
fetch that is pending. -/
structure FetchWorld (α : Type) where
  queue : String
  strategy : Nat → StrategyPoll
  fetch : Nat → Option (Except Error (List α))

/-- `PgPollFetcher`, with the polls it made and the record of what
happened. -/
structure PgPollFetcher (α : Type) where
  state : StreamState α
  previousTaskCount : Nat
  strategyPolls : Nat
  fetchPolls : Nat
  log : List (FetchEvent α)

namespace PgPollFetcher

variable {α : Type}

def new : PgPollFetcher α := ⟨.waitForPoll, 0, 0, 0, []⟩

def record (fetcher : PgPollFetcher α) (events : List (FetchEvent α)) :
    PgPollFetcher α :=
  { fetcher with log := fetcher.log ++ events }

/-- Leave the call with an answer. -/
def answer (fetcher : PgPollFetcher α) (poll : FetchPoll α) :
    PgPollFetcher α × Option (FetchPoll α) :=
  (fetcher.record [.returned poll], some poll)

def startFetch (fetcher : PgPollFetcher α) : PgPollFetcher α :=
  { fetcher with state := .fetch }.record [.started]

/-- One turn of the loop of `poll_next`: it returns, or goes on. -/
def turn (world : FetchWorld α) (fetcher : PgPollFetcher α) :
    PgPollFetcher α × Option (FetchPoll α) :=
  match fetcher.state with
  | .waitForPoll =>
      let polled := { fetcher with strategyPolls := fetcher.strategyPolls + 1 }
      match world.strategy fetcher.strategyPolls with
      | .pending => polled.answer .pending
      | .permit => ((polled.record [.permitted]).startFetch, none)
      | .exhausted =>
          ({ polled with state := .ended }.record [.exhausted]).answer
            (.error (.pollStrategyExhausted world.queue))
  | .ended => fetcher.answer .ended
  | .fetch =>
      let polled := { fetcher with fetchPolls := fetcher.fetchPolls + 1 }
      match world.fetch fetcher.fetchPolls with
      | none => polled.answer .pending
      | some (.ok tasks) =>
          if tasks.isEmpty then
            ({ polled with previousTaskCount := 0, state := .waitForPoll }.record
              [.fetched tasks], none)
          else
            ({ polled with
                previousTaskCount := tasks.length
                state := .buffered tasks }.record [.fetched tasks], none)
      | some (.error error) =>
          ({ polled with previousTaskCount := 0, state := .waitForPoll }.record
            [.failed error]).answer (.error error)
  | .buffered buffer =>
      match buffer with
      | task :: rest =>
          -- a drained buffer returns to the configured strategy
          { fetcher with
            state := if rest.isEmpty then .waitForPoll else .buffered rest
            }.answer (.task task)
      | [] => ({ fetcher with state := .waitForPoll }, none)

/-- A call of `poll_next`, as long as the fuel lasts. -/
def pollNext (world : FetchWorld α) :
    Nat → PgPollFetcher α → Option (PgPollFetcher α × FetchPoll α)
  | 0, _ => none
  | fuel + 1, fetcher =>
      match fetcher.turn world with
      | (after, some poll) => some (after, poll)
      | (after, none) => pollNext world fuel after

/-- The fetcher after a number of turns; a turn that returns is followed by
the next call. -/
def turns (world : FetchWorld α) : Nat → PgPollFetcher α → PgPollFetcher α
  | 0, fetcher => fetcher
  | n + 1, fetcher => turns world n (fetcher.turn world).1

/-- The tasks fetched and not yielded yet. -/
def pending (fetcher : PgPollFetcher α) : List α :=
  match fetcher.state with
  | .buffered buffer => buffer
  | _ => []

end PgPollFetcher

section

variable {α : Type}

@[simp] def FetchEvent.task? : FetchEvent α → Option α
  | .returned (.task task) => some task
  | _ => none

@[simp] def FetchEvent.batch? : FetchEvent α → Option (List α)
  | .fetched batch => some batch
  | _ => none

@[simp] def FetchEvent.failure? : FetchEvent α → Option Error
  | .failed error => some error
  | _ => none

@[simp] def FetchEvent.error? : FetchEvent α → Option Error
  | .returned (.error error) => some error
  | _ => none

@[simp] def FetchEvent.isPermit : FetchEvent α → Bool
  | .permitted => true
  | _ => false

@[simp] def FetchEvent.isStart : FetchEvent α → Bool
  | .started => true
  | _ => false

/-- The size a fetch leaves behind; an error counts as none. -/
@[simp] def FetchEvent.size (previous : Nat) : FetchEvent α → Nat
  | .fetched batch => batch.length
  | .failed _ => 0
  | _ => previous

/-- The tasks handed to the consumer. -/
def yieldedTasks (log : List (FetchEvent α)) : List α :=
  log.filterMap FetchEvent.task?

/-- The tasks of every completed fetch. -/
def fetchedTasks (log : List (FetchEvent α)) : List α :=
  (log.filterMap FetchEvent.batch?).flatten

def fetchErrors (log : List (FetchEvent α)) : List Error :=
  log.filterMap FetchEvent.failure?

/-- The errors handed to the consumer. -/
def yieldedErrors (log : List (FetchEvent α)) : List Error :=
  log.filterMap FetchEvent.error?

def consumedPermits (log : List (FetchEvent α)) : Nat :=
  log.countP FetchEvent.isPermit

def startedFetches (log : List (FetchEvent α)) : Nat :=
  log.countP FetchEvent.isStart

/-- The size of the last completed fetch. -/
def lastFetchSize (log : List (FetchEvent α)) : Nat :=
  log.foldl FetchEvent.size 0

variable (log events : List (FetchEvent α))

@[simp] theorem yieldedTasks_append :
    yieldedTasks (log ++ events) = yieldedTasks log ++ yieldedTasks events := by
  simp [yieldedTasks]

@[simp] theorem fetchedTasks_append :
    fetchedTasks (log ++ events) = fetchedTasks log ++ fetchedTasks events := by
  simp [fetchedTasks]

@[simp] theorem fetchErrors_append :
    fetchErrors (log ++ events) = fetchErrors log ++ fetchErrors events := by
  simp [fetchErrors]

@[simp] theorem yieldedErrors_append :
    yieldedErrors (log ++ events) =
      yieldedErrors log ++ yieldedErrors events := by
  simp [yieldedErrors]

@[simp] theorem consumedPermits_append :
    consumedPermits (log ++ events) =
      consumedPermits log + consumedPermits events := by
  simp [consumedPermits]

@[simp] theorem startedFetches_append :
    startedFetches (log ++ events) =
      startedFetches log + startedFetches events := by
  simp [startedFetches]

variable (event : FetchEvent α)

@[simp] theorem yieldedTasks_cons :
    yieldedTasks (event :: events) =
      event.task?.toList ++ yieldedTasks events := by
  cases hevent : event.task? with
  | none =>
      rw [yieldedTasks, List.filterMap_cons_none hevent]
      rfl
  | some found =>
      rw [yieldedTasks, List.filterMap_cons_some hevent]
      rfl

@[simp] theorem fetchedTasks_cons :
    fetchedTasks (event :: events) =
      event.batch?.getD [] ++ fetchedTasks events := by
  cases hevent : event.batch? with
  | none =>
      rw [fetchedTasks, List.filterMap_cons_none hevent]
      rfl
  | some found =>
      rw [fetchedTasks, List.filterMap_cons_some hevent]
      rfl

@[simp] theorem fetchErrors_cons :
    fetchErrors (event :: events) =
      event.failure?.toList ++ fetchErrors events := by
  cases hevent : event.failure? with
  | none =>
      rw [fetchErrors, List.filterMap_cons_none hevent]
      rfl
  | some found =>
      rw [fetchErrors, List.filterMap_cons_some hevent]
      rfl

@[simp] theorem yieldedErrors_cons :
    yieldedErrors (event :: events) =
      event.error?.toList ++ yieldedErrors events := by
  cases hevent : event.error? with
  | none =>
      rw [yieldedErrors, List.filterMap_cons_none hevent]
      rfl
  | some found =>
      rw [yieldedErrors, List.filterMap_cons_some hevent]
      rfl

@[simp] theorem yieldedTasks_nil :
    yieldedTasks ([] : List (FetchEvent α)) = [] := rfl

@[simp] theorem fetchedTasks_nil :
    fetchedTasks ([] : List (FetchEvent α)) = [] := rfl

@[simp] theorem fetchErrors_nil :
    fetchErrors ([] : List (FetchEvent α)) = [] := rfl

@[simp] theorem yieldedErrors_nil :
    yieldedErrors ([] : List (FetchEvent α)) = [] := rfl

@[simp] theorem lastFetchSize_append :
    lastFetchSize (log ++ events) =
      events.foldl FetchEvent.size (lastFetchSize log) := by
  simp [lastFetchSize]

end

namespace PgPollFetcher

variable {α : Type} (world : FetchWorld α)

def isEnded (fetcher : PgPollFetcher α) : Bool :=
  match fetcher.state with
  | .ended => true
  | _ => false

/-- The error a fetcher ends with. -/
def exhaustion (fetcher : PgPollFetcher α) : List Error :=
  if fetcher.isEnded then [.pollStrategyExhausted world.queue] else []

/-- What the record of a fetcher satisfies at every turn. -/
structure Conserves (fetcher : PgPollFetcher α) : Prop where
  order : yieldedTasks fetcher.log ++ fetcher.pending = fetchedTasks fetcher.log
  starts : startedFetches fetcher.log = consumedPermits fetcher.log
  drained : ∀ n, fetcher.log[n]? = some .started →
    yieldedTasks (fetcher.log.take n) = fetchedTasks (fetcher.log.take n)
  errors : yieldedErrors fetcher.log =
    fetchErrors fetcher.log ++ fetcher.exhaustion world
  live : fetcher.isEnded = false → .exhausted ∉ fetcher.log
  last : fetcher.isEnded = true → ∃ before after,
    fetcher.log = before ++ .exhausted ::
      .returned (.error (.pollStrategyExhausted world.queue)) :: after ∧
    .exhausted ∉ before ∧ ∀ event ∈ after, event = .returned .ended
  size : fetcher.previousTaskCount = lastFetchSize fetcher.log

variable {world}

theorem Conserves.new : (PgPollFetcher.new : PgPollFetcher α).Conserves world :=
  ⟨rfl, rfl, by simp [PgPollFetcher.new], rfl, by simp [PgPollFetcher.new],
    by simp [PgPollFetcher.new, isEnded], rfl⟩

/-- A record that grows by events other than the start of a fetch starts no
fetch. -/
theorem drained_append {log events : List (FetchEvent α)}
    (h : ∀ n, log[n]? = some .started →
      yieldedTasks (log.take n) = fetchedTasks (log.take n))
    (hstart : .started ∉ events) (n : Nat)
    (hn : (log ++ events)[n]? = some .started) :
    yieldedTasks ((log ++ events).take n) =
      fetchedTasks ((log ++ events).take n) := by
  by_cases hbound : n < log.length
  · rw [List.getElem?_append_left hbound] at hn
    rw [List.take_append_of_le_length hbound.le]
    exact h n hn
  · rw [List.getElem?_append_right (Nat.le_of_not_lt hbound)] at hn
    exact absurd (List.mem_of_getElem? hn) hstart

/-- A turn that neither starts nor ends anything keeps the record in order. -/
theorem Conserves.grow {fetcher after : PgPollFetcher α}
    {events : List (FetchEvent α)} (h : fetcher.Conserves world)
    (hlive : fetcher.isEnded = false) (hafter : after.isEnded = false)
    (hlog : after.log = fetcher.log ++ events)
    (hstart : .started ∉ events) (hexhausted : .exhausted ∉ events)
    (hcounts : startedFetches events = 0 ∧ consumedPermits events = 0)
    (horder : fetcher.pending ++ fetchedTasks events =
      yieldedTasks events ++ after.pending)
    (herrors : yieldedErrors events = fetchErrors events)
    (hsize : after.previousTaskCount =
      events.foldl FetchEvent.size fetcher.previousTaskCount) :
    after.Conserves world := by
  have hnone : fetcher.exhaustion world = [] := by simp [exhaustion, hlive]
  constructor
  · rw [hlog, yieldedTasks_append, fetchedTasks_append, List.append_assoc,
      ← horder, ← List.append_assoc, h.order]
  · simp [hlog, h.starts, hcounts.1, hcounts.2]
  · rw [hlog]
    exact drained_append h.drained hstart
  · rw [hlog, yieldedErrors_append, h.errors, hnone, herrors]
    simp [exhaustion, hafter]
  · intro _
    rw [hlog, List.mem_append, not_or]
    exact ⟨h.live hlive, hexhausted⟩
  · intro hended
    rw [hafter] at hended
    cases hended
  · rw [hlog, lastFetchSize_append, ← h.size, hsize]

/-- A permit starts one fetch, and only when nothing is buffered. -/
theorem Conserves.start {fetcher after : PgPollFetcher α}
    (h : fetcher.Conserves world) (hstate : fetcher.state = .waitForPoll)
    (hafter : after.state = .fetch)
    (hlog : after.log = fetcher.log ++ [.permitted, .started])
    (hsize : after.previousTaskCount = fetcher.previousTaskCount) :
    after.Conserves world := by
  have hpending : fetcher.pending = [] := by simp [pending, hstate]
  have hlive : fetcher.isEnded = false := by simp [isEnded, hstate]
  have hnext : after.isEnded = false := by simp [isEnded, hafter]
  have horder := h.order
  rw [hpending, List.append_nil] at horder
  constructor
  · simp [hlog, horder, pending, hafter]
  · rw [hlog, startedFetches_append, consumedPermits_append, h.starts]
    rfl
  · intro n hn
    rw [hlog] at hn ⊢
    by_cases hbound : n < fetcher.log.length
    · rw [List.getElem?_append_left hbound] at hn
      rw [List.take_append_of_le_length hbound.le]
      exact h.drained n hn
    · -- the fetch just started follows its permit
      have hat : n = fetcher.log.length + 1 := by
        rw [List.getElem?_append_right (Nat.le_of_not_lt hbound)] at hn
        rcases hoffset : n - fetcher.log.length with _ | _ | k
        · simp [hoffset] at hn
        · omega
        · simp [hoffset] at hn
      subst hat
      rw [List.take_append, List.take_of_length_le (by omega)]
      simp [horder]
  · have hnone : fetcher.exhaustion world = [] := by simp [exhaustion, hlive]
    rw [hlog, yieldedErrors_append, h.errors, hnone]
    simp [exhaustion, hnext]
  · intro _
    rw [hlog, List.mem_append, not_or]
    exact ⟨h.live hlive, by simp⟩
  · intro hended
    rw [hnext] at hended
    cases hended
  · simp [hlog, hsize, h.size]

/-- An exhausted strategy ends the fetcher with its error. -/
theorem Conserves.exhaust {fetcher after : PgPollFetcher α}
    (h : fetcher.Conserves world) (hstate : fetcher.state = .waitForPoll)
    (hafter : after.state = .ended)
    (hlog : after.log = fetcher.log ++ [.exhausted,
      .returned (.error (.pollStrategyExhausted world.queue))])
    (hsize : after.previousTaskCount = fetcher.previousTaskCount) :
    after.Conserves world := by
  have hpending : fetcher.pending = [] := by simp [pending, hstate]
  have hlive : fetcher.isEnded = false := by simp [isEnded, hstate]
  have hnext : after.isEnded = true := by simp [isEnded, hafter]
  have horder := h.order
  rw [hpending, List.append_nil] at horder
  constructor
  · simp [hlog, horder, pending, hafter]
  · rw [hlog, startedFetches_append, consumedPermits_append, h.starts]
    rfl
  · rw [hlog]
    exact drained_append h.drained (by simp)
  · have hnone : fetcher.exhaustion world = [] := by simp [exhaustion, hlive]
    rw [hlog, yieldedErrors_append, h.errors, hnone]
    simp [exhaustion, hnext]
  · intro hlives
    rw [hnext] at hlives
    cases hlives
  · intro _
    exact ⟨fetcher.log, [], hlog, h.live hlive, by simp⟩
  · simp [hlog, hsize, h.size]

/-- An ended fetcher answers `None`. -/
theorem Conserves.finish {fetcher after : PgPollFetcher α}
    (h : fetcher.Conserves world) (hstate : fetcher.state = .ended)
    (hafter : after.state = .ended)
    (hlog : after.log = fetcher.log ++ [.returned .ended])
    (hsize : after.previousTaskCount = fetcher.previousTaskCount) :
    after.Conserves world := by
  have hended : fetcher.isEnded = true := by simp [isEnded, hstate]
  have hnext : after.isEnded = true := by simp [isEnded, hafter]
  have hpending : after.pending = fetcher.pending := by
    simp [pending, hstate, hafter]
  constructor
  · simp [hlog, hpending, h.order]
  · rw [hlog, startedFetches_append, consumedPermits_append, h.starts]
    rfl
  · rw [hlog]
    exact drained_append h.drained (by simp)
  · simp [hlog, h.errors, exhaustion, hended, hnext]
  · intro hlives
    rw [hnext] at hlives
    cases hlives
  · intro _
    obtain ⟨before, later, hsplit, hnot, hlater⟩ := h.last hended
    refine ⟨before, later ++ [.returned .ended], ?_, hnot, ?_⟩
    · simp [hlog, hsplit]
    · intro event hevent
      rcases List.mem_append.mp hevent with hevent | hevent
      · exact hlater event hevent
      · exact List.mem_singleton.mp hevent
  · simp [hlog, hsize, h.size]

/-- Every turn keeps the record in order. -/
theorem Conserves.turn {fetcher : PgPollFetcher α}
    (h : fetcher.Conserves world) :
    (fetcher.turn world).1.Conserves world := by
  unfold PgPollFetcher.turn
  cases hstate : fetcher.state with
  | waitForPoll =>
      have hlive : fetcher.isEnded = false := by simp [isEnded, hstate]
      simp only
      cases world.strategy fetcher.strategyPolls with
      | pending =>
          refine h.grow hlive ?_ rfl ?_ ?_ ⟨rfl, rfl⟩ ?_ rfl rfl
          · simp [answer, record, isEnded]
          · simp
          · simp
          · simp [answer, record, pending, hstate]
      | permit =>
          refine h.start hstate rfl ?_ rfl
          simp [startFetch, record]
      | exhausted =>
          refine h.exhaust hstate rfl ?_ rfl
          simp [answer, record]
  | ended => exact h.finish hstate hstate rfl rfl
  | fetch =>
      have hlive : fetcher.isEnded = false := by simp [isEnded, hstate]
      have hpending : fetcher.pending = [] := by simp [pending, hstate]
      simp only
      cases world.fetch fetcher.fetchPolls with
      | none =>
          refine h.grow hlive ?_ rfl ?_ ?_ ⟨rfl, rfl⟩ ?_ rfl rfl
          · simp [answer, record, isEnded]
          · simp
          · simp
          · simp [answer, record, pending, hstate]
      | some result =>
          cases result with
          | ok tasks =>
              cases tasks with
              | nil =>
                  refine h.grow hlive rfl rfl ?_ ?_ ⟨rfl, rfl⟩ ?_ rfl rfl
                  · simp
                  · simp
                  · rw [hpending]
                    simp [record, pending]
              | cons task rest =>
                  refine h.grow hlive rfl rfl ?_ ?_ ⟨rfl, rfl⟩ ?_ rfl rfl
                  · simp
                  · simp
                  · rw [hpending]
                    simp [record, pending]
          | error error =>
              have hlog : fetcher.log ++ [.failed error] ++
                  [.returned (.error error)] = fetcher.log ++
                    [.failed error, .returned (.error error)] := by simp
              refine h.grow hlive rfl hlog ?_ ?_ ⟨rfl, rfl⟩ ?_ rfl rfl
              · simp
              · simp
              · rw [hpending]
                simp [answer, record, pending]
  | buffered buffer =>
      have hlive : fetcher.isEnded = false := by simp [isEnded, hstate]
      have hpending : fetcher.pending = buffer := by simp [pending, hstate]
      simp only
      cases buffer with
      | nil =>
          refine h.grow hlive rfl (List.append_nil _).symm ?_ ?_ ⟨rfl, rfl⟩ ?_
            rfl rfl
          · simp
          · simp
          · rw [hpending]
            simp [pending]
      | cons task rest =>
          refine h.grow hlive ?_ rfl ?_ ?_ ⟨rfl, rfl⟩ ?_ rfl rfl
          · cases rest <;> rfl
          · simp
          · simp
          · rw [hpending]
            cases rest <;> simp [answer, record, pending]

theorem Conserves.turns {fetcher : PgPollFetcher α}
    (h : fetcher.Conserves world) (n : Nat) :
    (fetcher.turns world n).Conserves world := by
  induction n generalizing fetcher with
  | zero => exact h
  | succ n ih => exact ih h.turn

/-- The turns that go on: a permit is taken, a fetch completes, or an empty
buffer is left. -/
theorem turn_goes_on {fetcher after : PgPollFetcher α}
    (h : fetcher.turn world = (after, none)) :
    (fetcher.state = .waitForPoll ∧
      world.strategy fetcher.strategyPolls = .permit ∧ after.state = .fetch ∧
      after.strategyPolls = fetcher.strategyPolls + 1 ∧
      after.fetchPolls = fetcher.fetchPolls) ∨
    (fetcher.state = .fetch ∧ world.fetch fetcher.fetchPolls ≠ none ∧
      (after.state = .waitForPoll ∨ ∃ buffer, after.state = .buffered buffer) ∧
      after.strategyPolls = fetcher.strategyPolls ∧
      after.fetchPolls = fetcher.fetchPolls + 1) ∨
    ((∃ buffer, fetcher.state = .buffered buffer) ∧
      after.state = .waitForPoll ∧
      after.strategyPolls = fetcher.strategyPolls ∧
      after.fetchPolls = fetcher.fetchPolls) := by
  unfold PgPollFetcher.turn at h
  cases hstate : fetcher.state with
  | waitForPoll =>
      simp only [hstate] at h
      cases hstrategy : world.strategy fetcher.strategyPolls with
      | pending => simp [hstrategy, answer] at h
      | exhausted => simp [hstrategy, answer] at h
      | permit =>
          simp only [hstrategy, Prod.mk.injEq] at h
          obtain ⟨rfl, _⟩ := h
          exact Or.inl ⟨rfl, rfl, rfl, rfl, rfl⟩
  | ended => simp [hstate, answer] at h
  | fetch =>
      simp only [hstate] at h
      cases hfetch : world.fetch fetcher.fetchPolls with
      | none => simp [hfetch, answer] at h
      | some result =>
          cases result with
          | error error => simp [hfetch, answer] at h
          | ok tasks =>
              right; left
              simp only [hfetch] at h
              split at h
              · obtain ⟨rfl, _⟩ := Prod.mk.inj h
                exact ⟨rfl, by simp, Or.inl rfl, rfl, rfl⟩
              · obtain ⟨rfl, _⟩ := Prod.mk.inj h
                exact ⟨rfl, by simp, Or.inr ⟨tasks, rfl⟩, rfl, rfl⟩
  | buffered buffer =>
      simp only [hstate] at h
      cases buffer with
      | cons task rest => simp [answer] at h
      | nil =>
          obtain ⟨rfl, _⟩ := Prod.mk.inj h
          exact Or.inr (Or.inr ⟨⟨[], rfl⟩, rfl, rfl, rfl⟩)

/-- A call returns once every further turn lowers a measure. -/
theorem pollNext_returns_of_measure (measure : PgPollFetcher α → Nat)
    (inv : PgPollFetcher α → Prop)
    (hstep : ∀ {fetcher after}, inv fetcher →
      fetcher.turn world = (after, none) →
        inv after ∧ measure after < measure fetcher)
    {fetcher : PgPollFetcher α} (h : inv fetcher) :
    ∃ fuel after poll, fetcher.pollNext world fuel = some (after, poll) := by
  induction hn : measure fetcher using Nat.strong_induction_on
    generalizing fetcher with
  | _ n ih =>
      subst hn
      rcases hturn : fetcher.turn world with ⟨after, poll⟩
      cases poll with
      | some poll =>
          exact ⟨1, after, poll, by simp [pollNext, hturn]⟩
      | none =>
          obtain ⟨hafter, hless⟩ := hstep h hturn
          obtain ⟨fuel, last, poll, hlast⟩ := ih _ hless hafter rfl
          exact ⟨fuel + 1, last, poll, by simp [pollNext, hturn, hlast]⟩

/-- How far a state is from the next poll of the strategy. -/
def stepsToStrategy : StreamState α → Nat
  | .waitForPoll => 0
  | .buffered _ => 1
  | .fetch => 2
  | .ended => 0

/-- How far a state is from the next poll of a fetch. -/
def stepsToFetch : StreamState α → Nat
  | .fetch => 0
  | .waitForPoll => 1
  | .buffered _ => 2
  | .ended => 0

theorem pollNext_returns_of_strategy {fetcher : PgPollFetcher α} {k : Nat}
    (hpolls : fetcher.strategyPolls ≤ k) (hpending : world.strategy k = .pending) :
    ∃ fuel after poll, fetcher.pollNext world fuel = some (after, poll) := by
  refine pollNext_returns_of_measure
    (fun fetcher => 3 * (k - fetcher.strategyPolls) +
      stepsToStrategy fetcher.state)
    (fun fetcher => fetcher.strategyPolls ≤ k) ?_ hpolls
  intro fetcher after hbound hturn
  rcases turn_goes_on hturn with ⟨hstate, hpermit, hafter, hpolls, _⟩ |
    ⟨hstate, _, hafter, hpolls, _⟩ | ⟨⟨buffer, hstate⟩, hafter, hpolls, _⟩
  · have hne : fetcher.strategyPolls ≠ k := by
      intro heq
      rw [heq, hpending] at hpermit
      cases hpermit
    simp only [hstate, hafter, hpolls, stepsToStrategy]
    omega
  · rcases hafter with hafter | ⟨buffer, hafter⟩
    · simp only [hstate, hafter, hpolls, stepsToStrategy]
      omega
    · simp only [hstate, hafter, hpolls, stepsToStrategy]
      omega
  · simp only [hstate, hafter, hpolls, stepsToStrategy]
    omega

theorem pollNext_returns_of_fetch {fetcher : PgPollFetcher α} {k : Nat}
    (hpolls : fetcher.fetchPolls ≤ k) (hpending : world.fetch k = none) :
    ∃ fuel after poll, fetcher.pollNext world fuel = some (after, poll) := by
  refine pollNext_returns_of_measure
    (fun fetcher => 3 * (k - fetcher.fetchPolls) + stepsToFetch fetcher.state)
    (fun fetcher => fetcher.fetchPolls ≤ k) ?_ hpolls
  intro fetcher after hbound hturn
  rcases turn_goes_on hturn with ⟨hstate, _, hafter, _, hpolls⟩ |
    ⟨hstate, hready, hafter, _, hpolls⟩ | ⟨⟨buffer, hstate⟩, hafter, _, hpolls⟩
  · simp only [hstate, hafter, hpolls, stepsToFetch]
    omega
  · have hne : fetcher.fetchPolls ≠ k := by
      intro heq
      rw [heq] at hready
      exact hready hpending
    rcases hafter with hafter | ⟨buffer, hafter⟩
    · simp only [hstate, hafter, hpolls, stepsToFetch]
      omega
    · simp only [hstate, hafter, hpolls, stepsToFetch]
      omega
  · simp only [hstate, hafter, hpolls, stepsToFetch]
    omega

/-- A call is a number of turns, the last of which returned. -/
theorem pollNext_turns {fetcher after : PgPollFetcher α} {fuel : Nat}
    {poll : FetchPoll α}
    (h : fetcher.pollNext world fuel = some (after, poll)) :
    ∃ n, after = fetcher.turns world n := by
  induction fuel generalizing fetcher with
  | zero => cases h
  | succ fuel ih =>
      rcases hturn : fetcher.turn world with ⟨next, result⟩
      cases result with
      | some returned =>
          simp only [pollNext, hturn, Option.some.injEq, Prod.mk.injEq] at h
          refine ⟨1, ?_⟩
          simp [PgPollFetcher.turns, hturn, h.1]
      | none =>
          simp only [pollNext, hturn] at h
          obtain ⟨n, hn⟩ := ih h
          refine ⟨n + 1, ?_⟩
          simp [PgPollFetcher.turns, hturn, hn]

theorem turns_add (fetcher : PgPollFetcher α) (first second : Nat) :
    fetcher.turns world (first + second) =
      (fetcher.turns world first).turns world second := by
  induction first generalizing fetcher with
  | zero => simp [PgPollFetcher.turns]
  | succ first ih =>
      rw [Nat.succ_add]
      exact ih (fetcher.turn world).1

/-- A fetch error is returned by a turn that goes back to the strategy. -/
theorem turn_error {fetcher after : PgPollFetcher α} {error : Error}
    (h : fetcher.turn world = (after, some (.error error))) :
    after.state = .waitForPoll ∨ after.state = .ended := by
  unfold PgPollFetcher.turn at h
  cases hstate : fetcher.state with
  | waitForPoll =>
      simp only [hstate] at h
      cases hstrategy : world.strategy fetcher.strategyPolls <;>
        simp only [hstrategy, answer, Prod.mk.injEq] at h
      · simp at h
      · simp at h
      · obtain ⟨rfl, _⟩ := h
        exact Or.inr rfl
  | ended => simp [hstate, answer] at h
  | fetch =>
      simp only [hstate] at h
      cases hfetch : world.fetch fetcher.fetchPolls with
      | none => simp [hfetch, answer] at h
      | some result =>
          cases result with
          | error other =>
              simp only [hfetch, answer, Prod.mk.injEq] at h
              obtain ⟨rfl, _⟩ := h
              exact Or.inl rfl
          | ok tasks =>
              simp only [hfetch] at h
              split at h <;> simp at h
  | buffered buffer =>
      simp only [hstate] at h
      cases buffer <;> simp [answer] at h

/-- Over every strategy, every sequence of fetch results and every pattern of
pending polls: the yielded tasks and the buffered ones are the fetched
batches in order; every fetch consumed one permit and was started with
nothing buffered; every fetch error is yielded once and the fetcher polls on;
an exhausted strategy is reported once and then the stream has ended; the
previous count is the size of the last fetch; and a call returns if the
strategy or a fetch is pending sooner or later. -/
theorem poll_fetcher_conserves (world : FetchWorld α) (n : Nat) :
    let fetcher := (PgPollFetcher.new : PgPollFetcher α).turns world n
    yieldedTasks fetcher.log ++ fetcher.pending = fetchedTasks fetcher.log ∧
    startedFetches fetcher.log = consumedPermits fetcher.log ∧
    (∀ k, fetcher.log[k]? = some .started →
      yieldedTasks (fetcher.log.take k) = fetchedTasks (fetcher.log.take k)) ∧
    yieldedErrors fetcher.log =
      fetchErrors fetcher.log ++ fetcher.exhaustion world ∧
    (∀ after error, fetcher.turn world = (after, some (.error error)) →
      after.isEnded = false → after.state = .waitForPoll) ∧
    (.exhausted ∈ fetcher.log → fetcher.isEnded = true ∧ ∃ before after,
      fetcher.log = before ++ .exhausted ::
        .returned (.error (.pollStrategyExhausted world.queue)) :: after ∧
      .exhausted ∉ before ∧ ∀ event ∈ after, event = .returned .ended) ∧
    fetcher.previousTaskCount = lastFetchSize fetcher.log ∧
    ((∃ k, fetcher.strategyPolls ≤ k ∧ world.strategy k = .pending) ∨
        (∃ k, fetcher.fetchPolls ≤ k ∧ world.fetch k = none) →
      ∃ fuel after poll, fetcher.pollNext world fuel = some (after, poll) ∧
        ∃ later, after = (PgPollFetcher.new : PgPollFetcher α).turns world
          (n + later)) := by
  intro fetcher
  have h : fetcher.Conserves world := Conserves.new.turns n
  refine ⟨h.order, h.starts, h.drained, h.errors, ?_, ?_, h.size, ?_⟩
  · intro after error hturn hlive
    rcases turn_error hturn with hwait | hended
    · exact hwait
    · simp [isEnded, hended] at hlive
  · intro hexhausted
    have hended : fetcher.isEnded = true := by
      cases hlive : fetcher.isEnded with
      | true => rfl
      | false => exact absurd hexhausted (h.live hlive)
    exact ⟨hended, h.last hended⟩
  · intro hpending
    have hreturns : ∃ fuel after poll,
        fetcher.pollNext world fuel = some (after, poll) := by
      rcases hpending with ⟨k, hpolls, hstrategy⟩ | ⟨k, hpolls, hfetch⟩
      · exact pollNext_returns_of_strategy hpolls hstrategy
      · exact pollNext_returns_of_fetch hpolls hfetch
    obtain ⟨fuel, after, poll, hpoll⟩ := hreturns
    obtain ⟨later, hlater⟩ := pollNext_turns hpoll
    exact ⟨fuel, after, poll, hpoll, later, by rw [hlater, turns_add]⟩

/-- Two permits: a batch of two after a pending fetch, then an error, and the
strategy ends. -/
theorem poll_fetcher_conserves_two_permits :
    let world : FetchWorld Nat := ⟨"queue",
      fun n => if n < 2 then .permit else .exhausted,
      fun n => if n = 0 then none else if n = 1 then some (.ok [7, 8])
        else some (.error (.pool "timeout"))⟩
    let fetcher := (PgPollFetcher.new : PgPollFetcher Nat).turns world 9
    fetcher.log = [.permitted, .started, .returned .pending, .fetched [7, 8],
      .returned (.task 7), .returned (.task 8), .permitted, .started,
      .failed (.pool "timeout"), .returned (.error (.pool "timeout")),
      .exhausted, .returned (.error (.pollStrategyExhausted "queue")),
      .returned .ended] ∧
    fetcher.previousTaskCount = 0 ∧
    yieldedErrors fetcher.log = fetchErrors fetcher.log ++
      [.pollStrategyExhausted "queue"] := by
  intro world fetcher
  obtain ⟨_, _, _, herrors, _⟩ := poll_fetcher_conserves world 9
  exact ⟨by decide +kernel, by decide +kernel, herrors⟩

end PgPollFetcher

end ApalisPostgres
