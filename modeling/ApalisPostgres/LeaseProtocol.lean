/-
The lease streams of one worker name.  A task stream registers the name on its
first poll and retires it when it is dropped after its registration; a
heartbeat stream does neither.  All of them share one lease, which anyone may
retire between the polls of a stream or while it polls the stream inside.
-/
import ApalisPostgres.EventMachine
import ApalisPostgres.Errors
import Mathlib.Data.List.Basic

namespace ApalisPostgres

open RowStore

namespace Fetcher

/-- `WorkerLease`, as far as the streams of the name change it. -/
structure Lease where
  workerId : String
  retired : Bool
  registered : Bool
  settledRegistrations : Nat
  pendingRegistrations : Nat
deriving Repr, DecidableEq

namespace Lease

def new (workerId : String) : Lease := ⟨workerId, false, false, 0, 0⟩

def retire (lease : Lease) : Lease := { lease with retired := true }

def beginRegistration (lease : Lease) : Lease :=
  { lease with pendingRegistrations := lease.pendingRegistrations + 1 }

def finishRegistration (lease : Lease) (succeeded : Bool) : Lease :=
  { lease with
    registered := lease.registered || succeeded
    settledRegistrations := lease.settledRegistrations + 1
    pendingRegistrations := lease.pendingRegistrations - 1 }

def ensureActive (lease : Lease) : Except Error Unit :=
  if lease.retired then .error (.workerRetired lease.workerId) else .ok ()

end Lease

inductive RegistrationProgress where
  | notBegun
  | pending
  | settled
deriving Repr, DecidableEq

/-- `Poll<Option<Result<T, Error>>>`. -/
inductive ItemPoll (T : Type) where
  | pending
  | ended
  | item (result : Except Error T)

/-- What happened to one stream, in order.  `called` notes whether the lease
was active when the stream was polled. -/
inductive LeaseEntry (T : Type) where
  | called (active : Bool)
  | begun
  | polled
  | settled (succeeded : Bool)
  | returned (poll : ItemPoll T)
  | dropped

structure LeaseStream (T : Type) where
  retireOnDrop : Bool
  registration : RegistrationProgress
  guarded : Bool
  ended : Bool
  dropped : Bool
  log : List (LeaseEntry T)

/-- The error after which a claim may have committed unseen. -/
def ItemPoll.outcomeUnknown {T : Type} : ItemPoll T → Bool
  | .item (.error (.claimOutcomeUnknown _ _)) => true
  | _ => false

/-- How the answer of the stream inside settles a registration. -/
def ItemPoll.succeeded? {T : Type} : ItemPoll T → Option Bool
  | .item (.ok _) => some true
  | .item (.error _) => some false
  | .pending | .ended => none

namespace LeaseStream

variable {T : Type}

def new (retireOnDrop : Bool) : LeaseStream T :=
  ⟨retireOnDrop, .notBegun, false, false, false, []⟩

def record (stream : LeaseStream T) (entries : List (LeaseEntry T)) :
    LeaseStream T :=
  { stream with log := stream.log ++ entries }

/-- The first poll of a task stream begins the registration attempt. -/
def begins (stream : LeaseStream T) : Bool :=
  stream.retireOnDrop && stream.registration = .notBegun

/-- The lease and the stream once the attempt has begun. -/
def register (lease : Lease) (stream : LeaseStream T) :
    Lease × LeaseStream T :=
  if stream.begins then
    (lease.beginRegistration,
      { stream with registration := .pending }.record [.begun])
  else (lease, stream)

/-- The first item settles a pending attempt; a success arms the guard. -/
def settle (lease : Lease) (stream : LeaseStream T) (inner : ItemPoll T) :
    Lease × LeaseStream T :=
  if stream.registration = .pending then
    match inner.succeeded? with
    | some succeeded =>
        (lease.finishRegistration succeeded,
          { stream with
            guarded := succeeded
            registration := .settled }.record [.settled succeeded])
    | none => (lease, stream)
  else (lease, stream)

/-- `LeaseStream::poll_next`; `inner` is what the stream inside answers if it
is polled, and `meanwhile` whether the name was retired during that poll. -/
def pollNext (lease : Lease) (stream : LeaseStream T) (inner : ItemPoll T)
    (meanwhile : Bool) : Lease × LeaseStream T :=
  let called := stream.record [.called (!lease.retired)]
  if stream.ended then (lease, called.record [.returned .ended])
  else
    match lease.ensureActive with
    | .error error =>
        (lease, { called with ended := true }.record
          [.returned (.item (.error error))])
    | .ok () =>
        let begun := register lease called
        let during := if meanwhile then begun.1.retire else begun.1
        let settled := settle during (begun.2.record [.polled]) inner
        let unknown := if inner.outcomeUnknown then settled.1.retire
          else settled.1
        (unknown, settled.2.record [.returned inner])

/-- What that poll answers. -/
def answer (lease : Lease) (stream : LeaseStream T) (inner : ItemPoll T) :
    ItemPoll T :=
  if stream.ended then .ended
  else
    match lease.ensureActive with
    | .error error => .item (.error error)
    | .ok () => inner

/-- The fields are dropped in order: the guard, then the attempt. -/
def drop (lease : Lease) (stream : LeaseStream T) : Lease × LeaseStream T :=
  let unguarded := if stream.guarded then lease.retire else lease
  if stream.registration = .pending then
    (unguarded.finishRegistration false,
      { stream with dropped := true }.record [.settled false, .dropped])
  else (unguarded, { stream with dropped := true }.record [.dropped])

end LeaseStream

/-- The lease of a name and every stream opened for it. -/
structure LeaseSystem (T : Type) where
  lease : Lease
  streams : List (LeaseStream T)

/-- What can happen to them.  `retire` is a retirement by anyone else. -/
inductive LeaseSystemEvent (T : Type) where
  | openStream (retireOnDrop : Bool)
  | poll (n : Nat) (inner : ItemPoll T) (meanwhile : Bool)
  | drop (n : Nat)
  | retire

namespace LeaseSystem

variable {T : Type}

/-- Change one stream that is still there, and the lease with it. -/
def update (system : LeaseSystem T) (n : Nat)
    (change : Lease → LeaseStream T → Lease × LeaseStream T) :
    Option (LeaseSystem T) :=
  match system.streams[n]? with
  | none => none
  | some stream =>
      if stream.dropped then none
      else
        let after := change system.lease stream
        some ⟨after.1, system.streams.set n after.2⟩

def step (system : LeaseSystem T) :
    LeaseSystemEvent T → Option (LeaseSystem T)
  | .openStream retireOnDrop =>
      some { system with streams := system.streams ++ [.new retireOnDrop] }
  | .poll n inner meanwhile =>
      system.update n fun lease stream => stream.pollNext lease inner meanwhile
  | .drop n => system.update n fun lease stream => stream.drop lease
  | .retire => some { system with lease := system.lease.retire }

/-- The streams of one name, from the creation of its lease on. -/
def machine (workerId : String) :
    Machine (LeaseSystem T) (LeaseSystemEvent T) where
  Initial system := system = ⟨.new workerId, []⟩
  step := step

end LeaseSystem

section

variable {T : Type}

@[simp] def LeaseEntry.isBegun : LeaseEntry T → Bool
  | .begun => true
  | _ => false

@[simp] def LeaseEntry.settlement? : LeaseEntry T → Option Bool
  | .settled succeeded => some succeeded
  | _ => none

@[simp] def LeaseEntry.item? : LeaseEntry T → Option Bool
  | .returned poll => poll.succeeded?
  | _ => none

/-- What may still happen after the retirement was reported. -/
@[simp] def LeaseEntry.quiet : LeaseEntry T → Bool
  | .called active => !active
  | .settled succeeded => !succeeded
  | .returned .ended => true
  | .dropped => true
  | _ => false

/-- How many registration attempts a stream began. -/
def attempts (log : List (LeaseEntry T)) : Nat :=
  log.countP LeaseEntry.isBegun

/-- How they were settled. -/
def settlements (log : List (LeaseEntry T)) : List Bool :=
  log.filterMap LeaseEntry.settlement?

/-- Whether the first item a stream yielded is `Ok`. -/
def firstItem (log : List (LeaseEntry T)) : Option Bool :=
  log.findSome? LeaseEntry.item?

/-- Whether the first poll of a stream found the lease active. -/
def opensActive : List (LeaseEntry T) → Bool
  | .called active :: _ => active
  | _ => false

variable (log entries : List (LeaseEntry T))

theorem opensActive_append :
    opensActive (log ++ entries) =
      if log.isEmpty then opensActive entries else opensActive log := by
  cases log with
  | nil => rfl
  | cons entry rest => cases entry <;> rfl

@[simp] theorem attempts_append :
    attempts (log ++ entries) = attempts log + attempts entries := by
  simp [attempts]

@[simp] theorem settlements_append :
    settlements (log ++ entries) = settlements log ++ settlements entries := by
  simp [settlements]

@[simp] theorem firstItem_append :
    firstItem (log ++ entries) = (firstItem log).or (firstItem entries) := by
  simp [firstItem]

@[simp] theorem firstItem_cons (entry : LeaseEntry T) :
    firstItem (entry :: log) = entry.item?.or (firstItem log) := by
  simp only [firstItem, List.findSome?_cons]
  cases entry.item? <;> rfl

@[simp] theorem firstItem_nil : firstItem ([] : List (LeaseEntry T)) = none :=
  rfl

end

/-- The lease after a poll or a drop: the same name, still retired if it was,
and retired by the step if `retires` says so. -/
structure Lease.Moves (before after : Lease) (retires : Bool) : Prop where
  workerId : after.workerId = before.workerId
  retired : after.retired = (before.retired || retires)

namespace LeaseStream

variable {T : Type} {lease : Lease} {stream : LeaseStream T}

theorem register_lease (lease : Lease) (stream : LeaseStream T) :
    (register lease stream).1.workerId = lease.workerId ∧
      (register lease stream).1.retired = lease.retired := by
  unfold register
  split <;> exact ⟨rfl, rfl⟩

theorem settle_lease (lease : Lease) (stream : LeaseStream T)
    (inner : ItemPoll T) :
    (settle lease stream inner).1.workerId = lease.workerId ∧
      (settle lease stream inner).1.retired = lease.retired := by
  unfold settle
  split
  · split
    · exact ⟨rfl, rfl⟩
    · exact ⟨rfl, rfl⟩
  · exact ⟨rfl, rfl⟩

/-- A poll retires the name only while the stream inside is polled, or by the
item it answers. -/
theorem pollNext_lease (inner : ItemPoll T) (meanwhile : Bool) :
    ∃ retires, lease.Moves (stream.pollNext lease inner meanwhile).1 retires ∧
      (stream.ended = false → lease.retired = false →
        inner.outcomeUnknown = true → retires = true) := by
  unfold pollNext Lease.ensureActive
  split
  · rename_i hended
    exact ⟨false, ⟨rfl, by simp⟩, by simp [hended]⟩
  · cases hretired : lease.retired with
    | true => exact ⟨false, ⟨rfl, by simp [hretired]⟩, by simp⟩
    | false =>
        simp only [Bool.false_eq_true, ↓reduceIte]
        refine ⟨meanwhile || inner.outcomeUnknown, ⟨?_, ?_⟩, by simp_all⟩
        · cases hunknown : inner.outcomeUnknown <;> cases meanwhile <;>
            simp [settle_lease, register_lease, Lease.retire]
        · cases hunknown : inner.outcomeUnknown <;> cases meanwhile <;>
            simp [settle_lease, register_lease, Lease.retire, hretired]

theorem drop_lease : lease.Moves (stream.drop lease).1 stream.guarded := by
  by_cases hpending : stream.registration = .pending
  · simp only [drop, if_pos hpending]
    cases hguarded : stream.guarded with
    | true => exact ⟨rfl, by simp [Lease.retire, Lease.finishRegistration]⟩
    | false => exact ⟨rfl, by simp [Lease.finishRegistration]⟩
  · simp only [drop, if_neg hpending]
    cases hguarded : stream.guarded with
    | true => exact ⟨rfl, by simp [Lease.retire]⟩
    | false => exact ⟨rfl, by simp⟩

/-- What one poll does to the stream. -/
inductive Polled (lease : Lease) (stream : LeaseStream T) (inner : ItemPoll T) :
    LeaseStream T → Prop where
  | finished (hended : stream.ended = true) :
      Polled lease stream inner
        (stream.record [.called (!lease.retired), .returned .ended])
  | retired (hended : stream.ended = false) (hretired : lease.retired = true) :
      Polled lease stream inner
        ({ stream with ended := true }.record [.called false,
          .returned (.item (.error (.workerRetired lease.workerId)))])
  | first (hended : stream.ended = false) (hactive : lease.retired = false)
      (htask : stream.retireOnDrop = true)
      (hfresh : stream.registration = .notBegun)
      (hitem : inner.succeeded? = none) :
      Polled lease stream inner
        ({ stream with registration := .pending }.record
          [.called true, .begun, .polled, .returned inner])
  | firstSettled (succeeded : Bool) (hended : stream.ended = false)
      (hactive : lease.retired = false) (htask : stream.retireOnDrop = true)
      (hfresh : stream.registration = .notBegun)
      (hitem : inner.succeeded? = some succeeded) :
      Polled lease stream inner
        ({ stream with registration := .settled, guarded := succeeded }.record
          [.called true, .begun, .polled, .settled succeeded,
            .returned inner])
  | settled (succeeded : Bool) (hended : stream.ended = false)
      (hactive : lease.retired = false)
      (hpending : stream.registration = .pending)
      (hitem : inner.succeeded? = some succeeded) :
      Polled lease stream inner
        ({ stream with registration := .settled, guarded := succeeded }.record
          [.called true, .polled, .settled succeeded, .returned inner])
  | plain (hended : stream.ended = false) (hactive : lease.retired = false)
      (hbegun : stream.retireOnDrop = true → stream.registration ≠ .notBegun)
      (hitem : stream.registration = .pending → inner.succeeded? = none) :
      Polled lease stream inner
        (stream.record [.called true, .polled, .returned inner])

theorem pollNext_polled (inner : ItemPoll T) (meanwhile : Bool) :
    Polled lease stream inner (stream.pollNext lease inner meanwhile).2 := by
  unfold pollNext Lease.ensureActive
  split
  · rename_i hended
    have h : Polled lease stream inner _ := .finished hended
    simpa [record] using h
  · rename_i hended
    rw [Bool.not_eq_true] at hended
    cases hactive : lease.retired with
    | true =>
        have h : Polled lease stream inner _ := .retired hended hactive
        simpa [record] using h
    | false =>
        simp only [Bool.false_eq_true, ↓reduceIte, Bool.not_false]
        by_cases htask : stream.retireOnDrop = true ∧
            stream.registration = .notBegun
        · obtain ⟨htask, hfresh⟩ := htask
          cases hitem : inner.succeeded? with
          | none =>
              have h : Polled lease stream inner _ :=
                .first hended hactive htask hfresh hitem
              simpa [record, register, begins, settle, htask, hfresh, hitem]
                using h
          | some succeeded =>
              have h : Polled lease stream inner _ :=
                .firstSettled succeeded hended hactive htask hfresh hitem
              simpa [record, register, begins, settle, htask, hfresh, hitem]
                using h
        · have hbegins : stream.begins = false := by
            simpa [begins] using htask
          have hbegun : stream.retireOnDrop = true →
              stream.registration ≠ .notBegun := by
            intro hretire hfresh
            exact htask ⟨hretire, hfresh⟩
          by_cases hpending : stream.registration = .pending
          · cases hitem : inner.succeeded? with
            | none =>
                have h : Polled lease stream inner _ :=
                  .plain hended hactive hbegun fun _ => hitem
                simpa [record, register, begins, settle, hpending, hitem]
                  using h
            | some succeeded =>
                have h : Polled lease stream inner _ :=
                  .settled succeeded hended hactive hpending hitem
                simpa [record, register, begins, settle, hpending, hitem]
                  using h
          · have h : Polled lease stream inner _ :=
              .plain hended hactive hbegun fun hp => absurd hp hpending
            have hregister : register lease (stream.record [.called true]) =
                (lease, stream.record [.called true]) := if_neg (by
              rw [show (stream.record [.called true]).begins = false
                from hbegins]
              simp)
            rw [hregister]
            simpa [record, settle, hpending] using h

/-- A stream ends with the first poll of a retired name. -/
theorem pollNext_ended (inner : ItemPoll T) (meanwhile : Bool) :
    (stream.pollNext lease inner meanwhile).2.ended =
      (stream.ended || lease.retired) := by
  have hpolled : Polled lease stream inner _ := pollNext_polled inner meanwhile
  generalize (stream.pollNext lease inner meanwhile).2 = after at hpolled ⊢
  cases hpolled with
  | finished hended => simp [record, hended]
  | retired hended hretired => simp [record, hretired]
  | first hended hactive _ _ _ => simp [record, hended, hactive]
  | firstSettled _ hended hactive _ _ _ => simp [record, hended, hactive]
  | settled _ hended hactive _ _ => simp [record, hended, hactive]
  | plain hended hactive _ _ => simp [record, hended, hactive]

/-- The registration attempt of a stream, as its log tells it. -/
structure Begun (stream : LeaseStream T) : Prop where
  heartbeat : stream.retireOnDrop = false → stream.registration = .notBegun
  idle : stream.registration = .notBegun →
    attempts stream.log = 0 ∧ settlements stream.log = []
  fresh : stream.retireOnDrop = true → stream.registration = .notBegun →
    opensActive stream.log = false ∧
      (stream.ended = false → stream.dropped = false → stream.log = [])
  started : stream.registration ≠ .notBegun → attempts stream.log = 1 ∧
    ∃ rest, stream.log = .called true :: .begun :: rest
  pending : stream.registration = .pending →
    settlements stream.log = if stream.dropped then [false] else []
  settled : stream.registration = .settled →
    settlements stream.log = [stream.guarded]

/-- The guard of a task stream and the first item it yielded. -/
structure Armed (stream : LeaseStream T) : Prop where
  unarmed : stream.registration ≠ .settled → stream.guarded = false
  item : stream.retireOnDrop = true → firstItem stream.log =
    if stream.registration = .settled then some stream.guarded
    else if stream.ended then some false else none

/-- What a stream told of the retirement of its name, and what it did about a
claim whose outcome is unknown. -/
structure Told (lease : Lease) (stream : LeaseStream T) : Prop where
  active : stream.ended = false → LeaseEntry.called false ∉ stream.log
  retired : stream.ended = true → lease.retired = true
  ended : stream.ended = true → ∃ before rest, stream.log = before ++
    .called false :: .returned (.item (.error (.workerRetired lease.workerId)))
      :: rest ∧ LeaseEntry.called false ∉ before ∧
        ∀ entry ∈ rest, entry.quiet = true
  unknown : ∀ poll, LeaseEntry.returned poll ∈ stream.log →
    poll.outcomeUnknown = true → lease.retired = true

/-- The invariant of one stream of the name. -/
structure Kept (lease : Lease) (stream : LeaseStream T) : Prop where
  begun : stream.Begun
  armed : stream.Armed
  told : stream.Told lease

/-- Entries that neither begin nor settle an attempt keep the account, unless
they open the log of a task stream that goes on. -/
theorem Begun.record {ended dropped : Bool} {entries : List (LeaseEntry T)}
    (h : stream.Begun) (hattempts : attempts entries = 0)
    (hsettlements : settlements entries = [])
    (hfresh : stream.retireOnDrop = true → stream.registration = .notBegun →
      opensActive entries = false ∧ (ended = false → dropped = true))
    (hdropped : stream.registration = .pending → dropped = stream.dropped) :
    ({ stream with ended := ended, dropped := dropped }.record
      entries).Begun where
  heartbeat := h.heartbeat
  idle := by
    intro hidle
    simpa [LeaseStream.record, hattempts, hsettlements] using h.idle hidle
  fresh := by
    intro htask hidle
    obtain ⟨hopens, hover⟩ := hfresh htask hidle
    refine ⟨?_, ?_⟩
    · simp [LeaseStream.record, opensActive_append, hopens,
        (h.fresh htask hidle).1]
    · intro hended hkept
      exact absurd (hover hended) (Bool.eq_false_iff.mp hkept)
  started := by
    intro hstarted
    obtain ⟨hcount, rest, hlog⟩ := h.started hstarted
    refine ⟨by simp [LeaseStream.record, hattempts, hcount],
      rest ++ entries, ?_⟩
    simp [LeaseStream.record, hlog]
  pending := by
    intro hpending
    show settlements (stream.log ++ entries) =
      if dropped then [false] else []
    rw [settlements_append, hsettlements, List.append_nil, hdropped hpending]
    exact h.pending hpending
  settled := by
    intro hsettled
    simpa [LeaseStream.record, hsettlements] using h.settled hsettled

theorem Polled.begun {inner : ItemPoll T} {after : LeaseStream T}
    (h : Polled lease stream inner after) (hkept : stream.Kept lease)
    (hdropped : stream.dropped = false) : after.Begun := by
  have hbegun := hkept.begun
  cases h with
  | finished hended =>
      refine hbegun.record rfl rfl (fun _ _ => ⟨?_, ?_⟩) fun _ => rfl
      · simp [opensActive, hkept.told.retired hended]
      · simp [hended]
  | retired hended hretired =>
      exact hbegun.record rfl rfl (fun _ _ => ⟨rfl, by simp⟩) fun _ => rfl
  | first hended hactive htask hfresh hitem =>
      have hlog := (hbegun.fresh htask hfresh).2 hended hdropped
      refine ⟨by simp [LeaseStream.record, htask], ?_, ?_, ?_, ?_, ?_⟩
      · simp [LeaseStream.record]
      · simp [LeaseStream.record]
      · intro _
        simp only [LeaseStream.record, hlog, List.nil_append]
        exact ⟨rfl, _, rfl⟩
      · simp [LeaseStream.record, hlog, settlements, hdropped]
      · simp [LeaseStream.record]
  | firstSettled succeeded hended hactive htask hfresh hitem =>
      have hlog := (hbegun.fresh htask hfresh).2 hended hdropped
      refine ⟨by simp [LeaseStream.record, htask], ?_, ?_, ?_, ?_, ?_⟩
      · simp [LeaseStream.record]
      · simp [LeaseStream.record]
      · intro _
        simp only [LeaseStream.record, hlog, List.nil_append]
        exact ⟨rfl, _, rfl⟩
      · simp [LeaseStream.record]
      · intro _
        simp only [LeaseStream.record, hlog]
        rfl
  | settled succeeded hended hactive hpending hitem =>
      obtain ⟨hcount, rest, hlog⟩ := hbegun.started (by simp [hpending])
      have hnone := hbegun.pending hpending
      refine ⟨?_, ?_, ?_, ?_, ?_, ?_⟩
      · intro hheartbeat
        simp [hbegun.heartbeat hheartbeat] at hpending
      · simp [LeaseStream.record]
      · simp [LeaseStream.record]
      · intro _
        refine ⟨?_, ?_⟩
        · simp only [LeaseStream.record, attempts_append, hcount]
          rfl
        · simp only [LeaseStream.record, hlog]
          exact ⟨_, rfl⟩
      · simp [LeaseStream.record]
      · intro _
        simp only [LeaseStream.record, settlements_append, hnone, hdropped]
        rfl
  | plain hended hactive hstarted hitem =>
      exact hbegun.record rfl rfl
        (fun htask hidle => absurd hidle (hstarted htask)) fun _ => rfl

/-- Entries that follow the first item of a task stream keep its account. -/
theorem Armed.record {ended : Bool} {entries : List (LeaseEntry T)}
    (h : stream.Armed)
    (hitem : stream.retireOnDrop = true → stream.registration ≠ .settled →
      stream.ended = false →
      firstItem entries = if ended then some false else none)
    (hended : stream.ended = true → ended = true) :
    ({ stream with ended := ended }.record entries).Armed where
  unarmed := h.unarmed
  item := by
    intro htask
    show firstItem (stream.log ++ entries) =
      if stream.registration = .settled then some stream.guarded
      else if ended then some false else none
    rw [firstItem_append, h.item htask]
    by_cases hsettled : stream.registration = .settled
    · simp [hsettled]
    · cases hover : stream.ended with
      | true => simp [hsettled, hended hover]
      | false =>
          rw [hitem htask hsettled hover, if_neg hsettled, if_neg hsettled]
          rfl

theorem Polled.armed {inner : ItemPoll T} {after : LeaseStream T}
    (h : Polled lease stream inner after) (hkept : stream.Kept lease)
    (hdropped : stream.dropped = false) : after.Armed := by
  have harmed := hkept.armed
  cases h with
  | finished hended =>
      refine harmed.record ?_ fun _ => hended
      intro _ _ hopen
      simp [hended] at hopen
  | retired hended hretired =>
      exact harmed.record (fun _ _ _ => rfl) fun _ => rfl
  | first hended hactive htask hfresh hitem =>
      have hlog := (hkept.begun.fresh htask hfresh).2 hended hdropped
      refine ⟨fun _ => harmed.unarmed (by simp [hfresh]), fun _ => ?_⟩
      simp [LeaseStream.record, hlog, hitem, hended]
  | firstSettled succeeded hended hactive htask hfresh hitem =>
      have hlog := (hkept.begun.fresh htask hfresh).2 hended hdropped
      refine ⟨by simp [LeaseStream.record], fun _ => ?_⟩
      simp [LeaseStream.record, hlog, hitem]
  | settled succeeded hended hactive hpending hitem =>
      refine ⟨by simp [LeaseStream.record], fun htask => ?_⟩
      have hfirst := harmed.item htask
      simp only [hpending, hended] at hfirst
      simp [LeaseStream.record, hfirst, hitem]
  | plain hended hactive hstarted hitem =>
      refine harmed.record ?_ fun hover => hover
      intro htask hunsettled _
      have hpending : stream.registration = .pending := by
        cases hregistration : stream.registration with
        | notBegun => exact absurd hregistration (hstarted htask)
        | pending => rfl
        | settled => exact absurd hregistration hunsettled
      simp [hitem hpending, hended]

/-- What a stream told stays true while the name stays retired. -/
theorem Told.moves {after : Lease} {retires : Bool} (h : stream.Told lease)
    (hmoves : lease.Moves after retires) : stream.Told after where
  active := h.active
  retired := by
    intro hended
    simp [hmoves.retired, h.retired hended]
  ended := by
    rw [hmoves.workerId]
    exact h.ended
  unknown := by
    intro poll hpoll hunknown
    simp [hmoves.retired, h.unknown poll hpoll hunknown]

/-- A poll of a stream under an active lease tells nothing of a retirement. -/
theorem Told.record_active {entries : List (LeaseEntry T)}
    {inner : ItemPoll T} {after : Lease} (h : stream.Told lease)
    (hended : stream.ended = false)
    (hactive : LeaseEntry.called false ∉ entries)
    (hanswers : ∀ poll, LeaseEntry.returned poll ∈ entries → poll = inner)
    (hretires : after.retired = true ∨ (lease.retired = false ∧
      inner.outcomeUnknown = false)) : (stream.record entries).Told after where
  active := by
    intro _ hmem
    rcases List.mem_append.mp hmem with hmem | hmem
    · exact h.active hended hmem
    · exact hactive hmem
  retired := by simp [LeaseStream.record, hended]
  ended := by simp [LeaseStream.record, hended]
  unknown := by
    intro poll hmem hunknown
    rcases hretires with hretired | ⟨hopen, hknown⟩
    · exact hretired
    · rcases List.mem_append.mp hmem with hmem | hmem
      · simp [h.unknown poll hmem hunknown] at hopen
      · simp [hanswers poll hmem, hknown] at hunknown

/-- After the retirement was told only quiet entries follow. -/
theorem Told.record_quiet {entries : List (LeaseEntry T)}
    (h : stream.Told lease) (hquiet : ∀ entry ∈ entries, entry.quiet = true)
    (hactive : stream.ended = false → LeaseEntry.called false ∉ entries)
    (hanswers : ∀ poll, LeaseEntry.returned poll ∈ entries →
      poll.outcomeUnknown = false) : (stream.record entries).Told lease where
  active := by
    intro hopen hmem
    rcases List.mem_append.mp hmem with hmem | hmem
    · exact h.active hopen hmem
    · exact hactive hopen hmem
  retired := h.retired
  ended := by
    intro hended
    obtain ⟨before, rest, hlog, hbefore, hrest⟩ := h.ended hended
    refine ⟨before, rest ++ entries, ?_, hbefore, ?_⟩
    · simp [LeaseStream.record, hlog]
    · intro entry hentry
      rcases List.mem_append.mp hentry with hentry | hentry
      · exact hrest entry hentry
      · exact hquiet entry hentry
  unknown := by
    intro poll hmem hunknown
    rcases List.mem_append.mp hmem with hmem | hmem
    · exact h.unknown poll hmem hunknown
    · simp [hanswers poll hmem] at hunknown

theorem Polled.told {inner : ItemPoll T} {after : LeaseStream T}
    {moved : Lease} {retires : Bool} (h : Polled lease stream inner after)
    (hkept : stream.Kept lease) (hmoves : lease.Moves moved retires)
    (hunknown : stream.ended = false → lease.retired = false →
      inner.outcomeUnknown = true → retires = true) : after.Told moved := by
  have htold := hkept.told
  -- Every poll of an active lease answers what the stream inside answered.
  have hactive (hended : stream.ended = false) (hactive : lease.retired = false)
      (entries : List (LeaseEntry T))
      (hcalled : LeaseEntry.called false ∉ entries)
      (hanswers : ∀ poll, LeaseEntry.returned poll ∈ entries →
        poll = inner) : (stream.record entries).Told moved := by
    refine htold.record_active hended hcalled hanswers ?_
    cases hinner : inner.outcomeUnknown with
    | true =>
        left
        simp [hmoves.retired, hunknown hended hactive hinner]
    | false => exact .inr ⟨hactive, rfl⟩
  cases h with
  | finished hended =>
      have hretired := htold.retired hended
      refine Told.moves ?_ hmoves
      apply htold.record_quiet
      · simp [hretired]
      · simp [hended]
      · simp [ItemPoll.outcomeUnknown]
  | retired hended hretired =>
      refine Told.moves ?_ hmoves
      refine ⟨by simp [LeaseStream.record], fun _ => hretired, fun _ => ?_, ?_⟩
      · exact ⟨stream.log, [], rfl, htold.active hended, by simp⟩
      · intro poll hmem hpoll
        exact hretired
  | first hended hopen htask hfresh hitem =>
      have hrecorded := hactive hended hopen
        [.called true, .begun, .polled, .returned inner] (by simp) (by simp)
      exact ⟨hrecorded.active, hrecorded.retired, hrecorded.ended,
        hrecorded.unknown⟩
  | firstSettled succeeded hended hopen htask hfresh hitem =>
      have hrecorded := hactive hended hopen
        [.called true, .begun, .polled, .settled succeeded, .returned inner]
        (by simp) (by simp)
      exact ⟨hrecorded.active, hrecorded.retired, hrecorded.ended,
        hrecorded.unknown⟩
  | settled succeeded hended hopen hpending hitem =>
      have hrecorded := hactive hended hopen
        [.called true, .polled, .settled succeeded, .returned inner]
        (by simp) (by simp)
      exact ⟨hrecorded.active, hrecorded.retired, hrecorded.ended,
        hrecorded.unknown⟩
  | plain hended hopen hstarted hitem =>
      exact hactive hended hopen _ (by simp) (by simp)

theorem Kept.pollNext (h : stream.Kept lease) (hdropped : stream.dropped = false)
    (inner : ItemPoll T) (meanwhile : Bool) :
    (stream.pollNext lease inner meanwhile).2.Kept
      (stream.pollNext lease inner meanwhile).1 := by
  have hpolled : Polled lease stream inner _ := pollNext_polled inner meanwhile
  obtain ⟨retires, hmoves, hunknown⟩ :=
    @pollNext_lease _ lease stream inner meanwhile
  exact ⟨hpolled.begun h hdropped, hpolled.armed h hdropped,
    hpolled.told h hmoves hunknown⟩

/-- Dropping a stream settles a pending attempt as refused. -/
theorem Begun.drop_pending (h : stream.Begun)
    (hdropped : stream.dropped = false)
    (hpending : stream.registration = .pending) :
    ({ stream with dropped := true }.record
      [.settled false, .dropped]).Begun := by
  obtain ⟨hcount, rest, hlog⟩ := h.started (by simp [hpending])
  have hnone := h.pending hpending
  refine ⟨h.heartbeat, ?_, ?_, ?_, ?_, ?_⟩
  · simp [LeaseStream.record, hpending]
  · simp [LeaseStream.record, hpending]
  · intro _
    refine ⟨?_, ?_⟩
    · simp only [LeaseStream.record, attempts_append, hcount]
      rfl
    · simp only [LeaseStream.record, hlog]
      exact ⟨_, rfl⟩
  · intro _
    simp only [LeaseStream.record, settlements_append, hnone, hdropped]
    rfl
  · simp [LeaseStream.record, hpending]

/-- The entries of a drop are quiet and yield nothing. -/
theorem Kept.record_drop {entries : List (LeaseEntry T)} (h : stream.Kept lease)
    (hquiet : ∀ entry ∈ entries, entry.quiet = true)
    (hsilent : ∀ entry ∈ entries, ∀ poll active,
      entry ≠ .returned poll ∧ entry ≠ .called active)
    (hbegun : ({ stream with dropped := true }.record entries).Begun) :
    ({ stream with dropped := true }.record entries).Kept lease := by
  have hnone : firstItem entries = none := by
    rw [firstItem, List.findSome?_eq_none_iff]
    intro entry hentry
    cases entry with
    | returned poll => exact absurd rfl (hsilent _ hentry poll true).1
    | called active => rfl
    | begun => rfl
    | polled => rfl
    | settled succeeded => rfl
    | dropped => rfl
  have hrecorded : (stream.record entries).Told lease := by
    apply h.told.record_quiet hquiet
    · intro _ hmem
      exact (hsilent _ hmem .ended false).2 rfl
    · intro poll hmem
      exact absurd rfl (hsilent _ hmem poll true).1
  have harmed : (stream.record entries).Armed := by
    refine h.armed.record ?_ fun hover => hover
    intro _ _ hopen
    rw [hnone, hopen]
    rfl
  exact ⟨hbegun, ⟨harmed.unarmed, harmed.item⟩, ⟨hrecorded.active,
    hrecorded.retired, hrecorded.ended, hrecorded.unknown⟩⟩

theorem Kept.moves {after : Lease} {retires : Bool} (h : stream.Kept lease)
    (hmoves : lease.Moves after retires) : stream.Kept after :=
  ⟨h.begun, h.armed, h.told.moves hmoves⟩

/-- A drop keeps the invariant. -/
theorem Kept.drop (h : stream.Kept lease) (hdropped : stream.dropped = false) :
    (stream.drop lease).2.Kept (stream.drop lease).1 := by
  refine Kept.moves ?_ drop_lease
  by_cases hpending : stream.registration = .pending
  · simp only [LeaseStream.drop, if_pos hpending]
    exact h.record_drop (by simp) (by simp)
      (h.begun.drop_pending hdropped hpending)
  · simp only [LeaseStream.drop, if_neg hpending]
    refine h.record_drop (by simp) (by simp) ?_
    exact h.begun.record rfl rfl (fun _ _ => ⟨rfl, fun _ => rfl⟩)
      fun hwaiting => absurd hwaiting hpending

theorem new_kept (retireOnDrop : Bool) : (new retireOnDrop : LeaseStream T).Kept
    lease := by
  refine ⟨⟨?_, ?_, ?_, ?_, ?_, ?_⟩, ⟨?_, ?_⟩, ⟨?_, ?_, ?_, ?_⟩⟩ <;>
    simp [new, attempts, settlements, opensActive]

end LeaseStream

end Fetcher

end ApalisPostgres
