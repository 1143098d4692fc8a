/-
The notified ids of one queue.  Ids travel through a bounded channel and may
be dropped there; a failure of the listener travels beside it, in a cell of
its own with its own waker.  The listener thread and the consumer interleave
in any order.
-/
import ApalisPostgres.SharedListener
import ApalisPostgres.Errors
import Mathlib.Data.List.Induction

namespace ApalisPostgres

open RowStore

/-- Where the listener is in `NotificationErrors::publish`: outside, past the
store, past the take of the waker; or gone, and its sender with it. -/
inductive Publisher where
  | free
  | stored
  | signalling (waker : Option Nat)
  | gone
deriving Repr, DecidableEq

/-- Where `NotifyTaskIds::poll_next` is: outside, in the first `take`, before
the poll of the channel, past a channel that ended, in the second `take`. -/
inductive IdPoll where
  | idle
  | registered
  | checked
  | drained
  | registeredAgain
deriving Repr, DecidableEq

/-- What a poll returns. -/
inductive IdAnswer (Id : Type) where
  | pending
  | ready (id : Id)
  | failed (error : Error)
  | ended
deriving Repr, DecidableEq

def IdAnswer.id? {Id : Type} : IdAnswer Id → Option Id
  | .ready id => some id
  | _ => none

def IdAnswer.error? {Id : Type} : IdAnswer Id → Option Error
  | .failed error => some error
  | _ => none

/-- The cell of failures is written and emptied. -/
inductive FailureMark where
  | published (error : Error)
  | observed (error : Error)
deriving Repr, DecidableEq

def FailureMark.published? : FailureMark → Option Error
  | .published error => some error
  | .observed _ => none

def FailureMark.observed? : FailureMark → Option Error
  | .published _ => none
  | .observed error => some error

/-- The failures published since the last one that was observed. -/
def unobserved : List FailureMark → List Error :=
  List.foldl (fun since mark =>
    match mark with
    | .published error => since ++ [error]
    | .observed _ => []) []

/-- `NotifyTaskIds` with what it shares with its listener.  The waker of a
poll is its number, and `woken` says that the last poll's was woken.  The
last three fields record the run. -/
structure NotifyTaskIds (Id : Type) where
  capacity : Nat
  hints : List Id
  publisher : Publisher
  pending : Option Error
  waker : Option Nat
  poll : IdPoll
  polls : Nat
  woken : Bool
  accepted : List Id
  answers : List (IdAnswer Id)
  marks : List FailureMark

/-- A registration that meets a wake in progress wakes at once, and leaves
nothing registered. -/
inductive NotifyEvent (Id : Type) where
  | trySend (id : Id)
  | publish (error : Error)
  | takeWaker
  | wake
  | dropSender
  | startPoll (atOnce : Bool)
  | takeError
  | pollReceiver
  | registerAgain (atOnce : Bool)
  | takeErrorAgain
deriving Repr, DecidableEq

namespace NotifyTaskIds

variable {Id : Type}

def new (capacity : Nat) : NotifyTaskIds Id :=
  ⟨clampNotifyCapacity capacity, [], .free, none, none, .idle, 0, false,
    [], [], []⟩

/-- The thread was not spawned: its closure, with the sender, is dropped, and
the failure is published before anyone can poll. -/
def unspawned (capacity : Nat) (message : String) : NotifyTaskIds Id :=
  { new capacity with
    publisher := .gone
    pending := some (.notifyListener message)
    marks := [.published (.notifyListener message)] }

/-- The poll returns. -/
def answer (source : NotifyTaskIds Id) (answer : IdAnswer Id) :
    NotifyTaskIds Id :=
  { source with poll := .idle, answers := source.answers ++ [answer] }

/-- `AtomicWaker::register` with the waker of the current poll. -/
def register (source : NotifyTaskIds Id) (atOnce : Bool) : NotifyTaskIds Id :=
  { source with
    waker := if atOnce then none else some source.polls
    woken := source.woken || atOnce }

/-- `pending.take()`, and where the poll goes if there is nothing. -/
def take (source : NotifyTaskIds Id) (otherwise : NotifyTaskIds Id) :
    NotifyTaskIds Id :=
  match source.pending with
  | some error =>
      answer
        { source with
          pending := none
          marks := source.marks ++ [.observed error] } (.failed error)
  | none => otherwise

def step (source : NotifyTaskIds Id) :
    NotifyEvent Id → Option (NotifyTaskIds Id)
  | .trySend id =>
      if source.publisher = .free then
        if source.capacity < source.hints.length then some source
        else some
          { source with
            hints := source.hints ++ [id]
            accepted := source.accepted ++ [id] }
      else none
  | .publish error =>
      if source.publisher = .free then some
        { source with
          pending := some (source.pending.getD error)
          publisher := .stored
          marks := source.marks ++ [.published error] }
      else none
  | .takeWaker =>
      if source.publisher = .stored then some
        { source with
          publisher := .signalling source.waker, waker := none }
      else none
  | .wake =>
      match source.publisher with
      | .signalling waker => some
          { source with
            publisher := .free
            woken := source.woken || decide (waker = some source.polls) }
      | _ => none
  | .dropSender =>
      if source.publisher = .free then some { source with publisher := .gone }
      else none
  | .startPoll atOnce =>
      if source.poll = .idle then some
        (register
          { source with
            poll := .registered
            polls := source.polls + 1
            woken := false } atOnce)
      else none
  | .takeError =>
      if source.poll = .registered then
        some (source.take { source with poll := .checked })
      else none
  | .pollReceiver =>
      if source.poll = .checked then
        match source.hints with
        | id :: rest => some (answer { source with hints := rest } (.ready id))
        | [] =>
            if source.publisher = .gone then
              some { source with poll := .drained }
            else some (source.answer .pending)
      else none
  | .registerAgain atOnce =>
      if source.poll = .drained then some
        (register { source with poll := .registeredAgain } atOnce)
      else none
  | .takeErrorAgain =>
      if source.poll = .registeredAgain then
        some (source.take (source.answer .ended))
      else none

def machine : Machine (NotifyTaskIds Id) (NotifyEvent Id) where
  Initial source := ∃ capacity, source = new capacity ∨
    ∃ message, source = unspawned capacity message
  step := step

def ids (source : NotifyTaskIds Id) : List Id :=
  source.answers.filterMap IdAnswer.id?

def errors (source : NotifyTaskIds Id) : List Error :=
  source.answers.filterMap IdAnswer.error?

/-- The last poll returned `Pending`. -/
def Parked (source : NotifyTaskIds Id) : Prop :=
  source.poll = .idle ∧ source.answers.getLast? = some .pending

/-- All that an event can do. -/
inductive Moves (source : NotifyTaskIds Id) : NotifyTaskIds Id → Prop
  | full (hfree : source.publisher = .free) : Moves source source
  | sent (id : Id) (hfree : source.publisher = .free)
      (hroom : source.hints.length ≤ source.capacity) : Moves source
        { source with
          hints := source.hints ++ [id]
          accepted := source.accepted ++ [id] }
  | published (error : Error) (hfree : source.publisher = .free) :
      Moves source
        { source with
          pending := some (source.pending.getD error)
          publisher := .stored
          marks := source.marks ++ [.published error] }
  | tookWaker (hstored : source.publisher = .stored) : Moves source
      { source with publisher := .signalling source.waker, waker := none }
  | woke {waker : Option Nat} (hwaker : source.publisher = .signalling waker) :
      Moves source
        { source with
          publisher := .free
          woken := source.woken || decide (waker = some source.polls) }
  | left (hfree : source.publisher = .free) :
      Moves source { source with publisher := .gone }
  | started (atOnce : Bool) (hidle : source.poll = .idle) : Moves source
      (register
        { source with
          poll := .registered
          polls := source.polls + 1
          woken := false } atOnce)
  | observed {error : Error}
      (hpoll : source.poll = .registered ∨ source.poll = .registeredAgain)
      (hpending : source.pending = some error) : Moves source
        (answer
          { source with
            pending := none
            marks := source.marks ++ [.observed error] } (.failed error))
  | unseen (hpoll : source.poll = .registered)
      (hpending : source.pending = none) :
      Moves source { source with poll := .checked }
  | yielded {id : Id} {rest : List Id} (hpoll : source.poll = .checked)
      (hhints : source.hints = id :: rest) :
      Moves source (answer { source with hints := rest } (.ready id))
  | waits (hpoll : source.poll = .checked) (hhints : source.hints = [])
      (hopen : source.publisher ≠ .gone) :
      Moves source (source.answer .pending)
  | closed (hpoll : source.poll = .checked) (hhints : source.hints = [])
      (hgone : source.publisher = .gone) :
      Moves source { source with poll := .drained }
  | registered (atOnce : Bool) (hpoll : source.poll = .drained) :
      Moves source (register { source with poll := .registeredAgain } atOnce)
  | ended (hpoll : source.poll = .registeredAgain)
      (hpending : source.pending = none) : Moves source (source.answer .ended)

variable {source after : NotifyTaskIds Id}

theorem step_moves {event : NotifyEvent Id}
    (h : source.step event = some after) : source.Moves after := by
  cases event with
  | trySend id =>
      simp only [step, Option.ite_none_right_eq_some] at h
      obtain ⟨hfree, h⟩ := h
      split at h
      · cases h
        exact .full hfree
      · rename_i hroom
        cases h
        exact .sent id hfree (Nat.le_of_not_lt hroom)
  | publish error =>
      simp only [step, Option.ite_none_right_eq_some] at h
      obtain ⟨hfree, h⟩ := h
      cases h
      exact .published error hfree
  | takeWaker =>
      simp only [step, Option.ite_none_right_eq_some] at h
      obtain ⟨hstored, h⟩ := h
      cases h
      exact .tookWaker hstored
  | wake =>
      simp only [step] at h
      split at h
      · rename_i waker hwaker
        cases h
        exact .woke hwaker
      · cases h
  | dropSender =>
      simp only [step, Option.ite_none_right_eq_some] at h
      obtain ⟨hfree, h⟩ := h
      cases h
      exact .left hfree
  | startPoll atOnce =>
      simp only [step, Option.ite_none_right_eq_some] at h
      obtain ⟨hidle, h⟩ := h
      cases h
      exact .started atOnce hidle
  | takeError =>
      simp only [step, Option.ite_none_right_eq_some] at h
      obtain ⟨hpoll, h⟩ := h
      cases h
      rw [take]
      split
      · rename_i error hpending
        exact .observed (Or.inl hpoll) hpending
      · rename_i hpending
        exact .unseen hpoll hpending
  | pollReceiver =>
      simp only [step, Option.ite_none_right_eq_some] at h
      obtain ⟨hpoll, h⟩ := h
      split at h
      · rename_i id rest hhints
        cases h
        exact .yielded hpoll hhints
      · rename_i hhints
        split at h
        · rename_i hgone
          cases h
          exact .closed hpoll hhints hgone
        · rename_i hopen
          cases h
          exact .waits hpoll hhints hopen
  | registerAgain atOnce =>
      simp only [step, Option.ite_none_right_eq_some] at h
      obtain ⟨hpoll, h⟩ := h
      cases h
      exact .registered atOnce hpoll
  | takeErrorAgain =>
      simp only [step, Option.ite_none_right_eq_some] at h
      obtain ⟨hpoll, h⟩ := h
      cases h
      rw [take]
      split
      · rename_i error hpending
        exact .observed (Or.inr hpoll) hpending
      · rename_i hpending
        exact .ended hpoll hpending

@[simp] theorem ids_answer (source : NotifyTaskIds Id)
    (answer : IdAnswer Id) :
    (source.answer answer).ids = source.ids ++ answer.id?.toList := by
  cases answer <;> simp [ids, NotifyTaskIds.answer, IdAnswer.id?]

@[simp] theorem errors_answer (source : NotifyTaskIds Id)
    (answer : IdAnswer Id) :
    (source.answer answer).errors =
      source.errors ++ answer.error?.toList := by
  cases answer <;> simp [errors, NotifyTaskIds.answer, IdAnswer.error?]

/-- The ids that were accepted are yielded or still in the channel, in
order. -/
structure Queued (source : NotifyTaskIds Id) : Prop where
  accepted : source.accepted = source.ids ++ source.hints
  room : source.hints.length ≤ source.capacity + 1

theorem Queued.step (h : source.Queued) (hmove : source.Moves after) :
    after.Queued := by
  obtain ⟨haccepted, hroom⟩ := h
  cases hmove with
  | sent id hfree hcap =>
      refine ⟨?_, ?_⟩
      · show source.accepted ++ [id] = source.ids ++ (source.hints ++ [id])
        rw [haccepted, List.append_assoc]
      · rw [List.length_append]
        exact Nat.succ_le_succ hcap
  | @yielded id rest hpoll hhints =>
      rw [hhints] at haccepted hroom
      refine ⟨?_, Nat.le_of_succ_le hroom⟩
      rw [ids_answer]
      show source.accepted = source.ids ++ [id] ++ rest
      rw [haccepted, List.append_assoc]
      rfl
  | observed hpoll hpending =>
      refine ⟨?_, hroom⟩
      rw [ids_answer]
      show source.accepted = source.ids ++ [] ++ source.hints
      rw [List.append_nil, haccepted]
  | waits hpoll hhints hopen =>
      refine ⟨?_, hroom⟩
      rw [ids_answer]
      show source.accepted = source.ids ++ [] ++ source.hints
      rw [List.append_nil, haccepted]
  | ended hpoll hpending =>
      refine ⟨?_, hroom⟩
      rw [ids_answer]
      show source.accepted = source.ids ++ [] ++ source.hints
      rw [List.append_nil, haccepted]
  | _ => exact ⟨haccepted, hroom⟩

theorem unobserved_published (marks : List FailureMark) (error : Error) :
    unobserved (marks ++ [.published error]) = unobserved marks ++ [error] := by
  simp [unobserved]

theorem unobserved_observed (marks : List FailureMark) (error : Error) :
    unobserved (marks ++ [.observed error]) = [] := by
  simp [unobserved]

/-- Each observed failure is the first since the one before it, and `pending`
is the first since the last. -/
structure Marked (source : NotifyTaskIds Id) : Prop where
  errors : source.errors = source.marks.filterMap FailureMark.observed?
  pending : source.pending = (unobserved source.marks).head?
  first : ∀ before error rest,
    source.marks = before ++ .observed error :: rest →
      (unobserved before).head? = some error

/-- A mark at the end of a list of marks. -/
theorem observed_concat {marks before rest : List FailureMark}
    {mark : FailureMark} {error : Error}
    (h : marks ++ [mark] = before ++ .observed error :: rest) :
    (mark = .observed error ∧ before = marks) ∨
      ∃ rest, marks = before ++ .observed error :: rest := by
  rcases List.eq_nil_or_concat rest with rfl | ⟨init, last, rfl⟩
  · obtain ⟨hbefore, hmark⟩ := List.append_inj' h rfl
    cases hmark
    exact Or.inl ⟨rfl, hbefore.symm⟩
  · rw [List.concat_eq_append, ← List.cons_append, ← List.append_assoc] at h
    obtain ⟨hmarks, -⟩ := List.append_inj' h rfl
    exact Or.inr ⟨init, hmarks⟩

theorem Marked.step (h : source.Marked) (hmove : source.Moves after) :
    after.Marked := by
  obtain ⟨herrors, hpending, hfirst⟩ := h
  cases hmove with
  | published error hfree =>
      refine ⟨?_, ?_, ?_⟩
      · show source.errors = _
        rw [herrors, List.filterMap_append]
        exact (List.append_nil _).symm
      · show some (source.pending.getD error) = _
        rw [unobserved_published, hpending]
        cases unobserved source.marks <;> rfl
      · intro before other rest hmarks
        rcases observed_concat hmarks with ⟨hmark, -⟩ | ⟨rest, hmarks⟩
        · cases hmark
        · exact hfirst before other rest hmarks
  | @observed error hpoll hsome =>
      refine ⟨?_, ?_, ?_⟩
      · rw [errors_answer]
        show source.errors ++ [error] =
          (source.marks ++ [FailureMark.observed error]).filterMap
            FailureMark.observed?
        rw [herrors, List.filterMap_append]
        rfl
      · show none = (unobserved (source.marks ++ [.observed error])).head?
        rw [unobserved_observed]
        rfl
      · intro before other rest hmarks
        rcases observed_concat hmarks with ⟨hmark, rfl⟩ | ⟨rest, hmarks⟩
        · cases hmark
          exact hpending.symm.trans hsome
        · exact hfirst before other rest hmarks
  | yielded hpoll hhints =>
      refine ⟨?_, hpending, hfirst⟩
      rw [errors_answer]
      exact (List.append_nil _).trans herrors
  | waits hpoll hhints hopen =>
      refine ⟨?_, hpending, hfirst⟩
      rw [errors_answer]
      exact (List.append_nil _).trans herrors
  | ended hpoll hnone =>
      refine ⟨?_, hpending, hfirst⟩
      rw [errors_answer]
      exact (List.append_nil _).trans herrors
  | _ => exact ⟨herrors, hpending, hfirst⟩

/-- The end of the channel was seen, or was told: nothing can come after. -/
structure Ended (source : NotifyTaskIds Id) : Prop where
  drained : source.poll = .drained ∨ source.poll = .registeredAgain →
    source.publisher = .gone ∧ source.hints = []
  told : .ended ∈ source.answers →
    source.publisher = .gone ∧ source.hints = [] ∧ source.pending = none

/-- No event brings anything once the sender is gone. -/
theorem Ended.drained_step (h : source.Ended) (hmove : source.Moves after)
    (hpoll : after.poll = .drained ∨ after.poll = .registeredAgain) :
    after.publisher = .gone ∧ after.hints = [] := by
  cases hmove with
  | full hfree => exact h.drained hpoll
  | sent id hfree hroom =>
      have hgone := (h.drained hpoll).1
      rw [hfree] at hgone
      cases hgone
  | published error hfree =>
      have hgone := (h.drained hpoll).1
      rw [hfree] at hgone
      cases hgone
  | tookWaker hstored =>
      have hgone := (h.drained hpoll).1
      rw [hstored] at hgone
      cases hgone
  | woke hwaker =>
      have hgone := (h.drained hpoll).1
      rw [hwaker] at hgone
      cases hgone
  | left hfree => exact ⟨rfl, (h.drained hpoll).2⟩
  | closed hchecked hhints hgone => exact ⟨hgone, hhints⟩
  | registered atOnce hdrained => exact h.drained (Or.inl hdrained)
  | _ => rcases hpoll with hpoll | hpoll <;> cases hpoll

theorem Ended.told_step (h : source.Ended) (hmove : source.Moves after)
    (htold : .ended ∈ after.answers) :
    after.publisher = .gone ∧ after.hints = [] ∧ after.pending = none := by
  cases hmove with
  | sent id hfree hroom =>
      have hgone := (h.told htold).1
      rw [hfree] at hgone
      cases hgone
  | published error hfree =>
      have hgone := (h.told htold).1
      rw [hfree] at hgone
      cases hgone
  | tookWaker hstored =>
      have hgone := (h.told htold).1
      rw [hstored] at hgone
      cases hgone
  | woke hwaker =>
      have hgone := (h.told htold).1
      rw [hwaker] at hgone
      cases hgone
  | left hfree => exact ⟨rfl, (h.told htold).2⟩
  | observed hpoll hpending =>
      rcases List.mem_append.mp htold with hold | hnew
      · obtain ⟨hgone, hhints, -⟩ := h.told hold
        exact ⟨hgone, hhints, rfl⟩
      · cases List.mem_singleton.mp hnew
  | @yielded id rest hpoll hhints =>
      rcases List.mem_append.mp htold with hold | hnew
      · have hnil := (h.told hold).2.1
        rw [hhints] at hnil
        cases hnil
      · cases List.mem_singleton.mp hnew
  | waits hpoll hhints hopen =>
      rcases List.mem_append.mp htold with hold | hnew
      · exact h.told hold
      · cases List.mem_singleton.mp hnew
  | ended hpoll hpending =>
      obtain ⟨hgone, hhints⟩ := h.drained (Or.inr hpoll)
      exact ⟨hgone, hhints, hpending⟩
  | _ => exact h.told htold

theorem Ended.step (h : source.Ended) (hmove : source.Moves after) :
    after.Ended :=
  ⟨h.drained_step hmove, h.told_step hmove⟩

/-- The poll has looked at the failures and found none, and has not returned
anything since. -/
def Attentive (source : NotifyTaskIds Id) : Prop :=
  source.poll = .checked ∨ source.poll = .drained ∨
    source.poll = .registeredAgain ∨ source.Parked

/-- The waker of the last poll is registered, was woken, or is in the hands of
the publisher; and it is not left registered beside a failure that it is not
told of. -/
structure Alert (source : NotifyTaskIds Id) : Prop where
  begun : source.Attentive → 0 < source.polls
  held : 0 < source.polls → source.waker = some source.polls ∨
    source.woken = true ∨ source.publisher = .signalling (some source.polls)
  told : source.Attentive → source.pending.isSome = true →
    source.woken = true ∨ source.publisher = .stored ∨
      source.publisher = .signalling (some source.polls)
  polling : source.poll ≠ .idle → 0 < source.polls

theorem Alert.step (h : source.Alert) (hmove : source.Moves after) :
    after.Alert := by
  cases hmove with
  | full hfree => exact h
  | sent id hfree hroom => exact ⟨h.begun, h.held, h.told, h.polling⟩
  | published error hfree =>
      refine ⟨h.begun, ?_, ?_, h.polling⟩
      · intro hpolls
        rcases h.held hpolls with hwaker | hwoken | hsignal
        · exact Or.inl hwaker
        · exact Or.inr (Or.inl hwoken)
        · rw [hfree] at hsignal
          cases hsignal
      · intro hattentive hpending
        exact Or.inr (Or.inl rfl)
  | tookWaker hstored =>
      have hheld (hpolls : 0 < source.polls) : source.woken = true ∨
          Publisher.signalling source.waker =
            .signalling (some source.polls) := by
        rcases h.held hpolls with hwaker | hwoken | hsignal
        · exact Or.inr (congrArg _ hwaker)
        · exact Or.inl hwoken
        · rw [hstored] at hsignal
          cases hsignal
      refine ⟨h.begun, fun hpolls => Or.inr (hheld hpolls), ?_, h.polling⟩
      intro hattentive hpending
      rcases hheld (h.begun hattentive) with hwoken | hsignal
      · exact Or.inl hwoken
      · exact Or.inr (Or.inr hsignal)
  | @woke waker hwaker =>
      have hwoke (hsignal : source.publisher =
          .signalling (some source.polls)) :
          (source.woken || decide (waker = some source.polls)) = true := by
        rw [hwaker] at hsignal
        cases hsignal
        simp
      refine ⟨h.begun, ?_, ?_, h.polling⟩
      · intro hpolls
        rcases h.held hpolls with hregistered | hwoken | hsignal
        · exact Or.inl hregistered
        · exact Or.inr (Or.inl (by simp [hwoken]))
        · exact Or.inr (Or.inl (hwoke hsignal))
      · intro hattentive hpending
        rcases h.told hattentive hpending with hwoken | hstored | hsignal
        · exact Or.inl (by simp [hwoken])
        · rw [hwaker] at hstored
          cases hstored
        · exact Or.inl (hwoke hsignal)
  | left hfree =>
      refine ⟨h.begun, ?_, ?_, h.polling⟩
      · intro hpolls
        rcases h.held hpolls with hwaker | hwoken | hsignal
        · exact Or.inl hwaker
        · exact Or.inr (Or.inl hwoken)
        · rw [hfree] at hsignal
          cases hsignal
      · intro hattentive hpending
        rcases h.told hattentive hpending with hwoken | hstored | hsignal
        · exact Or.inl hwoken
        · rw [hfree] at hstored
          cases hstored
        · rw [hfree] at hsignal
          cases hsignal
  | started atOnce hidle =>
      have hnot : ¬ (register
          { source with
            poll := .registered
            polls := source.polls + 1
            woken := false } atOnce).Attentive := by
        rintro (hpoll | hpoll | hpoll | ⟨hpoll, -⟩) <;> cases hpoll
      refine ⟨fun hattentive => absurd hattentive hnot, ?_,
        fun hattentive => absurd hattentive hnot, fun _ => Nat.succ_pos _⟩
      intro hpolls
      cases atOnce with
      | true => exact Or.inr (Or.inl rfl)
      | false => exact Or.inl rfl
  | observed hpoll hpending =>
      have hpolls : 0 < source.polls := by
        apply h.polling
        intro hidle
        rcases hpoll with hpoll | hpoll
        · rw [hidle] at hpoll
          cases hpoll
        · rw [hidle] at hpoll
          cases hpoll
      refine ⟨fun _ => hpolls, h.held, ?_, fun _ => hpolls⟩
      intro hattentive hsome
      cases hsome
  | unseen hpoll hpending =>
      have hpolls : 0 < source.polls :=
        h.polling (by rw [hpoll]; intro hidle; cases hidle)
      refine ⟨fun _ => hpolls, h.held, ?_, fun _ => hpolls⟩
      intro hattentive hsome
      rw [show source.pending = none from hpending] at hsome
      cases hsome
  | yielded hpoll hhints =>
      have hpolls : 0 < source.polls := h.begun (Or.inl hpoll)
      exact ⟨fun _ => hpolls, h.held, fun _ => h.told (Or.inl hpoll),
        fun _ => hpolls⟩
  | waits hpoll hhints hopen =>
      have hpolls : 0 < source.polls := h.begun (Or.inl hpoll)
      exact ⟨fun _ => hpolls, h.held, fun _ => h.told (Or.inl hpoll),
        fun _ => hpolls⟩
  | closed hpoll hhints hgone =>
      have hpolls : 0 < source.polls := h.begun (Or.inl hpoll)
      exact ⟨fun _ => hpolls, h.held, fun _ => h.told (Or.inl hpoll),
        fun _ => hpolls⟩
  | registered atOnce hpoll =>
      have hattentive : source.Attentive := Or.inr (Or.inl hpoll)
      have hpolls : 0 < source.polls := h.begun hattentive
      refine ⟨fun _ => hpolls, ?_, ?_, fun _ => hpolls⟩
      · intro _
        cases atOnce with
        | true => exact Or.inr (Or.inl (Bool.or_true _))
        | false => exact Or.inl rfl
      · intro _ hpending
        rcases h.told hattentive hpending with hwoken | hstored | hsignal
        · exact Or.inl (by simp [register, hwoken])
        · exact Or.inr (Or.inl hstored)
        · exact Or.inr (Or.inr hsignal)
  | ended hpoll hpending =>
      have hattentive : source.Attentive := Or.inr (Or.inr (Or.inl hpoll))
      have hpolls : 0 < source.polls := h.begun hattentive
      exact ⟨fun _ => hpolls, h.held, fun _ => h.told hattentive,
        fun _ => hpolls⟩

structure Sound (source : NotifyTaskIds Id) : Prop where
  queued : source.Queued
  marked : source.Marked
  ended : source.Ended
  alert : source.Alert

theorem not_attentive (hpoll : source.poll = .idle)
    (hanswers : source.answers = []) : ¬ source.Attentive := by
  rintro (hchecked | hdrained | hagain | ⟨-, hlast⟩)
  · rw [hpoll] at hchecked
    cases hchecked
  · rw [hpoll] at hdrained
    cases hdrained
  · rw [hpoll] at hagain
    cases hagain
  · rw [hanswers] at hlast
    cases hlast

/-- Nothing was polled yet. -/
theorem sound_unpolled (haccepted : source.accepted = [])
    (hhints : source.hints = []) (hpoll : source.poll = .idle)
    (hpolls : source.polls = 0) (hanswers : source.answers = [])
    (hpending : source.pending = (unobserved source.marks).head?)
    (hmarks : source.marks.filterMap FailureMark.observed? = []) :
    source.Sound := by
  refine ⟨⟨?_, ?_⟩, ⟨?_, hpending, ?_⟩, ⟨?_, ?_⟩, ⟨?_, ?_, ?_, ?_⟩⟩
  · rw [haccepted, ids, hanswers, hhints]
    rfl
  · rw [hhints]
    exact Nat.zero_le _
  · rw [hmarks, errors, hanswers]
    rfl
  · intro before error rest hsplit
    rw [hsplit, List.filterMap_append] at hmarks
    simp [FailureMark.observed?] at hmarks
  · rw [hpoll]
    rintro (hdrained | hagain)
    · cases hdrained
    · cases hagain
  · rw [hanswers]
    intro htold
    cases htold
  · intro hattentive
    exact absurd hattentive (not_attentive hpoll hanswers)
  · rw [hpolls]
    intro hpos
    cases hpos
  · intro hattentive
    exact absurd hattentive (not_attentive hpoll hanswers)
  · intro hbusy
    exact absurd hpoll hbusy

theorem sound_initial (hinitial : machine.Initial source) :
    source.Sound := by
  obtain ⟨capacity, rfl | ⟨message, rfl⟩⟩ := hinitial
  · exact sound_unpolled rfl rfl rfl rfl rfl rfl rfl
  · exact sound_unpolled rfl rfl rfl rfl rfl rfl rfl

theorem Sound.step (h : source.Sound) (hmove : source.Moves after) :
    after.Sound :=
  ⟨h.queued.step hmove, h.marked.step hmove, h.ended.step hmove,
    h.alert.step hmove⟩

theorem reachable_sound (h : machine.Reachable source) : source.Sound :=
  h.invariant Sound sound_initial fun hsound hstep =>
    hsound.step (step_moves hstep)

/-- A failure that no poll has taken yet, and no poll has passed by. -/
def Ahead (start : NotifyTaskIds Id) (error : Error)
    (source : NotifyTaskIds Id) : Prop :=
  (source.answers = start.answers ∧ source.pending = some error ∧
    (source.poll = .idle ∨ source.poll = .registered)) ∨
  ∃ rest, source.answers = start.answers ++ .failed error :: rest

theorem Ahead.step {start : NotifyTaskIds Id} {error : Error}
    (h : start.Ahead error source) (hmove : source.Moves after) :
    start.Ahead error after := by
  rcases h with ⟨hanswers, hpending, hpoll⟩ | ⟨rest, hanswers⟩
  · cases hmove with
    | published other hfree =>
        exact Or.inl ⟨hanswers, by simp [hpending], hpoll⟩
    | started atOnce hidle => exact Or.inl ⟨hanswers, hpending, Or.inr rfl⟩
    | @observed other hregistered hother =>
        cases hpending.symm.trans hother
        refine Or.inr ⟨[], ?_⟩
        show source.answers ++ [.failed error] = _
        rw [hanswers]
    | unseen hregistered hnone =>
        rw [hpending] at hnone
        cases hnone
    | yielded hchecked hhints => grind
    | waits hchecked hhints hopen => grind
    | closed hchecked hhints hgone => grind
    | registered atOnce hdrained => grind
    | ended hregistered hnone => grind
    | _ => exact Or.inl ⟨hanswers, hpending, hpoll⟩
  · have hmore (answer : IdAnswer Id) :
        ∃ rest, source.answers ++ [answer] =
          start.answers ++ .failed error :: rest :=
      ⟨rest ++ [answer], by rw [hanswers]; simp⟩
    cases hmove with
    | observed hregistered hother => exact Or.inr (hmore _)
    | yielded hchecked hhints => exact Or.inr (hmore _)
    | waits hchecked hhints hopen => exact Or.inr (hmore _)
    | ended hregistered hnone => exact Or.inr (hmore _)
    | _ => exact Or.inr ⟨rest, hanswers⟩

/-- The next poll to begin after a publication returns the failure, whatever
the channel holds. -/
theorem failure_first {error : Error} (hpending : source.pending = some error)
    (hpoll : source.poll = .idle ∨ source.poll = .registered)
    (hfollows : machine.Follows source after) {answer : IdAnswer Id}
    {rest : List (IdAnswer Id)}
    (hanswers : after.answers = source.answers ++ answer :: rest) :
    answer = .failed error := by
  have hahead : source.Ahead error after :=
    hfollows.invariant (source.Ahead error)
      (fun hahead hstep => hahead.step (step_moves hstep))
      (Or.inl ⟨rfl, hpending, hpoll⟩)
  rcases hahead with ⟨hsame, -⟩ | ⟨later, hfailed⟩
  · rw [hsame] at hanswers
    simp at hanswers
  · rw [hfailed] at hanswers
    have hcons := List.append_cancel_left hanswers
    cases hcons
    rfl

/-- As long as some of the ids that were there at the start are left, every
answer is an id or a failure. -/
def Draining (start source : NotifyTaskIds Id)
    (fresh : List (IdAnswer Id)) : Prop :=
  ∃ rest, rest ≠ [] ∧ rest <+: source.hints ∧
    start.hints = fresh.filterMap IdAnswer.id? ++ rest ∧
    fresh.length = (fresh.filterMap IdAnswer.id?).length +
      (fresh.filterMap IdAnswer.error?).length

/-- What was answered since the start, and the ids among it. -/
def Progress (start source : NotifyTaskIds Id) : Prop :=
  ∃ fresh, source.answers = start.answers ++ fresh ∧
    (start.hints <+: fresh.filterMap IdAnswer.id? ∨
      start.Draining source fresh)

theorem Progress.refl (source : NotifyTaskIds Id) :
    source.Progress source := by
  refine ⟨[], (List.append_nil _).symm, ?_⟩
  by_cases hnil : source.hints = []
  · exact Or.inl (by rw [hnil]; exact List.nil_prefix)
  · exact Or.inr ⟨source.hints, hnil, List.prefix_rfl, rfl, rfl⟩

theorem Progress.more {start : NotifyTaskIds Id}
    {fresh : List (IdAnswer Id)} {answer : IdAnswer Id}
    (hout : start.hints <+: fresh.filterMap IdAnswer.id?) :
    start.hints <+: (fresh ++ [answer]).filterMap IdAnswer.id? := by
  rw [List.filterMap_append]
  exact hout.trans (List.prefix_append _ _)

/-- The channel gives the next of the ids that were there. -/
theorem Draining.yield {start : NotifyTaskIds Id}
    {fresh : List (IdAnswer Id)} {id : Id} {rest : List Id}
    (h : start.Draining source fresh) (hhints : source.hints = id :: rest)
    {after : NotifyTaskIds Id} (hafter : after.hints = rest) :
    start.hints <+: (fresh ++ [IdAnswer.ready id]).filterMap IdAnswer.id? ∨
      start.Draining after (fresh ++ [.ready id]) := by
  obtain ⟨left, hsome, hprefix, hstart, hlength⟩ := h
  have hids : (fresh ++ [IdAnswer.ready id]).filterMap IdAnswer.id? =
      fresh.filterMap IdAnswer.id? ++ [id] := by
    rw [List.filterMap_append]
    rfl
  have herrors : (fresh ++ [IdAnswer.ready id]).filterMap IdAnswer.error? =
      fresh.filterMap IdAnswer.error? := by
    rw [List.filterMap_append]
    exact List.append_nil _
  cases left with
  | nil => exact absurd rfl hsome
  | cons first left =>
      rw [hhints, List.cons_prefix_cons] at hprefix
      obtain ⟨rfl, hleft⟩ := hprefix
      have hsplit : start.hints =
          (fresh ++ [IdAnswer.ready first]).filterMap IdAnswer.id? ++
            left := by
        rw [hids, hstart, List.append_assoc]
        rfl
      cases left with
      | nil =>
          rw [List.append_nil] at hsplit
          exact Or.inl ⟨[], (List.append_nil _).trans hsplit⟩
      | cons second left =>
          refine Or.inr ⟨_, List.cons_ne_nil second left, ?_, hsplit, ?_⟩
          · rw [hafter]
            exact hleft
          · rw [herrors, hids, List.length_append, List.length_append,
              hlength]
            simp only [List.length_singleton]
            omega

theorem Draining.failed {start after : NotifyTaskIds Id}
    {fresh : List (IdAnswer Id)} (h : start.Draining source fresh)
    (hafter : after.hints = source.hints) (error : Error) :
    start.Draining after (fresh ++ [.failed error]) := by
  obtain ⟨left, hsome, hprefix, hstart, hlength⟩ := h
  refine ⟨left, hsome, ?_, ?_, ?_⟩
  · rw [hafter]
    exact hprefix
  · rw [hstart, List.filterMap_append]
    simp [IdAnswer.id?]
  · rw [List.filterMap_append, List.filterMap_append]
    simp only [List.length_append, List.length_singleton, hlength]
    exact Nat.add_assoc _ _ _

theorem Draining.hints_ne_nil {start : NotifyTaskIds Id}
    {fresh : List (IdAnswer Id)} (h : start.Draining source fresh) :
    source.hints ≠ [] := by
  obtain ⟨left, hsome, hprefix, -⟩ := h
  intro hnil
  rw [hnil] at hprefix
  exact hsome (List.prefix_nil.mp hprefix)

theorem Progress.step {start : NotifyTaskIds Id} (hended : source.Ended)
    (h : start.Progress source) (hmove : source.Moves after) :
    start.Progress after := by
  obtain ⟨fresh, hanswers, hcase⟩ := h
  have hone (answer : IdAnswer Id) : source.answers ++ [answer] =
      start.answers ++ (fresh ++ [answer]) := by
    rw [hanswers, List.append_assoc]
  cases hmove with
  | sent id hfree hroom =>
      refine ⟨fresh, hanswers, hcase.imp_right ?_⟩
      rintro ⟨left, hsome, hprefix, hstart, hlength⟩
      exact ⟨left, hsome, hprefix.trans (List.prefix_append _ _), hstart,
        hlength⟩
  | @observed error hpoll hpending =>
      refine ⟨_, hone (.failed error), ?_⟩
      rcases hcase with hout | hleft
      · exact Or.inl (Progress.more hout)
      · exact Or.inr (hleft.failed rfl error)
  | @yielded id rest hpoll hhints =>
      refine ⟨_, hone (.ready id), ?_⟩
      rcases hcase with hout | hleft
      · exact Or.inl (Progress.more hout)
      · exact hleft.yield hhints rfl
  | waits hpoll hhints hopen =>
      refine ⟨_, hone .pending, ?_⟩
      rcases hcase with hout | hleft
      · exact Or.inl (Progress.more hout)
      · exact absurd hhints hleft.hints_ne_nil
  | ended hpoll hpending =>
      refine ⟨_, hone .ended, ?_⟩
      rcases hcase with hout | hleft
      · exact Or.inl (Progress.more hout)
      · have hnil := (hended.drained (Or.inr hpoll)).2
        exact absurd hnil hleft.hints_ne_nil
  | _ => exact ⟨fresh, hanswers, hcase⟩

/-- The ids in the channel are yielded first and in order, each failure taking
one poll. -/
theorem ids_follow (hsound : source.Sound)
    (hfollows : machine.Follows source after) :
    ∃ fresh, after.answers = source.answers ++ fresh ∧
      (source.hints.length + (fresh.filterMap IdAnswer.error?).length ≤
        fresh.length → source.hints <+: fresh.filterMap IdAnswer.id?) := by
  have hprogress : after.Sound ∧ source.Progress after := by
    refine hfollows.invariant
      (fun state => state.Sound ∧ source.Progress state) ?_
      ⟨hsound, .refl source⟩
    intro state next event ⟨hstate, hprogress⟩ hstep
    have hmove := step_moves hstep
    exact ⟨hstate.step hmove, hprogress.step hstate.ended hmove⟩
  obtain ⟨-, fresh, hanswers, hcase⟩ := hprogress
  refine ⟨fresh, hanswers, fun henough => ?_⟩
  rcases hcase with hout | ⟨left, hsome, -, hstart, hlength⟩
  · exact hout
  · have hpos := List.length_pos_of_ne_nil hsome
    rw [hlength, hstart, List.length_append] at henough
    omega

/-- Each failure that was yielded or is due has its own publication. -/
theorem observed_le_published (marks : List FailureMark)
    (hfirst : ∀ before error rest, marks = before ++ .observed error :: rest →
      (unobserved before).head? = some error) :
    (marks.filterMap FailureMark.observed?).length +
        (unobserved marks).length ≤
      (marks.filterMap FailureMark.published?).length := by
  induction marks using List.reverseRecOn with
  | nil => exact Nat.le_refl 0
  | append_singleton marks mark ih =>
      have hearlier := ih fun before error rest hmarks =>
        hfirst before error (rest ++ [mark]) (by rw [hmarks]; simp)
      rw [List.filterMap_append, List.filterMap_append, List.length_append,
        List.length_append]
      cases mark with
      | published error =>
          rw [unobserved_published, List.length_append]
          exact Nat.succ_le_succ hearlier
      | observed error =>
          have hhead := hfirst marks error [] rfl
          have hpos : 0 < (unobserved marks).length := by
            cases hsince : unobserved marks with
            | nil =>
                rw [hsince] at hhead
                cases hhead
            | cons first since => exact Nat.succ_pos _
          rw [unobserved_observed]
          show _ + 1 + 0 ≤ _ + 0
          omega

/-- A consumer that waits is woken once a publication is through. -/
theorem Sound.woken (h : source.Sound) (hparked : source.Parked)
    (hunobserved : unobserved source.marks ≠ [])
    (hdone : source.publisher = .free ∨ source.publisher = .gone) :
    source.woken = true := by
  have hpending : source.pending.isSome = true := by
    rw [h.marked.pending]
    cases hsince : unobserved source.marks with
    | nil => exact absurd hsince hunobserved
    | cons first since => rfl
  rcases h.alert.told (Or.inr (Or.inr (Or.inr hparked))) hpending with
    hwoken | hstored | hsignal
  · exact hwoken
  · rcases hdone with hfree | hgone
    · rw [hfree] at hstored
      cases hstored
    · rw [hgone] at hstored
      cases hstored
  · rcases hdone with hfree | hgone
    · rw [hfree] at hsignal
      cases hsignal
    · rw [hgone] at hsignal
      cases hsignal

/-- `NotificationErrors::publish` from its start to its end. -/
theorem publish_run (hfree : source.publisher = .free) (error : Error) :
    ∃ after, machine.run source [.publish error, .takeWaker, .wake] =
        some after ∧ after.publisher = .free ∧
      after.marks = source.marks ++ [.published error] ∧
      after.poll = source.poll ∧ after.answers = source.answers := by
  refine ⟨{ source with
    publisher := .free
    pending := some (source.pending.getD error)
    marks := source.marks ++ [.published error]
    waker := none
    woken := source.woken || decide (source.waker = some source.polls) },
    ?_, rfl, rfl, rfl, rfl⟩
  simp [Machine.run, machine, step, hfree]

/-- Listener failures are never hidden.  Accepted ids are yielded once, in
order, and all of them if polling goes on.  Each failure that is yielded is
the first one published since the last, and it is the answer of the first poll
that begins after it, however full the channel.  The end is told only when no
failure is left, and a consumer that waits is woken by a publication. -/
theorem listener_failures_surface (h : machine.Reachable source) :
    source.accepted = source.ids ++ source.hints ∧
    (∀ after, machine.Follows source after →
      ∃ fresh, after.answers = source.answers ++ fresh ∧
        (source.hints.length + (fresh.filterMap IdAnswer.error?).length ≤
          fresh.length → source.hints <+: fresh.filterMap IdAnswer.id?)) ∧
    source.errors = source.marks.filterMap FailureMark.observed? ∧
    (∀ before error rest,
      source.marks = before ++ .observed error :: rest →
        (unobserved before).head? = some error) ∧
    source.errors.length + (unobserved source.marks).length ≤
      (source.marks.filterMap FailureMark.published?).length ∧
    (∀ error, (unobserved source.marks).head? = some error →
      source.poll = .idle ∨ source.poll = .registered →
      ∀ after, machine.Follows source after → ∀ answer rest,
        after.answers = source.answers ++ answer :: rest →
          answer = .failed error) ∧
    (.ended ∈ source.answers → unobserved source.marks = [] ∧
      source.hints = [] ∧ source.publisher = .gone) ∧
    (source.Parked → unobserved source.marks ≠ [] →
      source.publisher = .free ∨ source.publisher = .gone →
        source.woken = true) ∧
    (source.Parked → source.publisher = .free → ∀ error,
      ∃ after, machine.run source [.publish error, .takeWaker, .wake] =
        some after ∧ after.woken = true) := by
  have hsound := reachable_sound h
  have hmarked := hsound.marked
  refine ⟨hsound.queued.accepted, fun after => ids_follow hsound,
    hmarked.errors, hmarked.first, ?_, ?_, ?_, hsound.woken, ?_⟩
  · rw [hmarked.errors]
    exact observed_le_published source.marks hmarked.first
  · intro error herror hpoll after hfollows answer rest
    exact failure_first (hmarked.pending.trans herror) hpoll hfollows
  · intro htold
    obtain ⟨hgone, hhints, hnone⟩ := hsound.ended.told htold
    rw [hmarked.pending] at hnone
    exact ⟨List.head?_eq_none_iff.mp hnone, hhints, hgone⟩
  · intro hparked hfree error
    obtain ⟨after, hrun, hafter, hmarks, hpoll, hanswers⟩ :=
      publish_run hfree error
    have hreached : machine.Reachable after :=
      h.follows (Machine.follows_of_run _ hrun)
    refine ⟨after, hrun, (reachable_sound hreached).woken ?_ ?_ (Or.inl hafter)⟩
    · exact ⟨hpoll.trans hparked.1, by rw [hanswers]; exact hparked.2⟩
    · rw [hmarks, unobserved_published]
      simp

/-- The listener fails and leaves after the poll looked for failures and
before it asks the channel: the second look finds the failure. -/
theorem listener_failures_surface_at_the_end :
    ∃ source : NotifyTaskIds Nat, machine.Reachable source ∧
      source.answers = [.ready 7, .failed (.pool "closed"), .ended] ∧
      source.accepted = [7] ∧ unobserved source.marks = [] := by
  let events : List (NotifyEvent Nat) := [.trySend 7, .startPoll false,
    .takeError, .pollReceiver, .startPoll false, .takeError,
    .publish (.pool "closed"), .takeWaker, .wake, .dropSender,
    .pollReceiver, .registerAgain false, .takeErrorAgain,
    .startPoll false, .takeError, .pollReceiver, .registerAgain false,
    .takeErrorAgain]
  let source : NotifyTaskIds Nat := (machine.run (new 1) events).get rfl
  have hrun : machine.run (new 1) events = some source := rfl
  have hreached : machine.Reachable source :=
    ⟨new 1, ⟨1, Or.inl rfl⟩, Machine.follows_of_run events hrun⟩
  have h := listener_failures_surface hreached
  have hanswers : source.answers =
      [.ready 7, .failed (.pool "closed"), .ended] := rfl
  refine ⟨source, hreached, hanswers, h.1, ?_⟩
  exact (h.2.2.2.2.2.2.1 (by rw [hanswers]; simp)).1

end NotifyTaskIds

end ApalisPostgres
