/-
The wait for a registration.  Heartbeats poll a `Registration` of their
worker's lease while task streams begin and settle registration attempts and
the name may be retired.  Every load, store, addition and drain below is one
sequentially consistent step, and the steps of any number of calls
interleave.
-/
import ApalisPostgres.EventMachine
import Mathlib.Data.Finset.Card
import Mathlib.Data.Finset.Range

namespace ApalisPostgres

open RowStore

/-- A call that may wake waiters: a registration attempt, which settles by
`finish_registration`, or a call of `retire`. -/
inductive LeaseCallKind where
  | attempt
  | retire
deriving Repr, DecidableEq

/-- The next step of a call.  `live` is an attempt not settled yet; the
wakers a call drained are woken one by one. -/
inductive LeasePhase where
  | live
  | store
  | count
  | leave
  | drain
  | waking (left : List Nat)
  | finished
deriving Repr, DecidableEq

structure LeaseCall where
  kind : LeaseCallKind
  succeeded : Bool
  phase : LeasePhase
deriving Repr, DecidableEq

/-- The loads of `is_settled`, in order. -/
inductive SettledRead where
  | registered
  | retired
  | settled
  | pending
deriving Repr, DecidableEq

/-- Where a poll is: not polled now, at a load of its first check or of its
recheck, or about to put its waker in place. -/
inductive PollPhase where
  | idle
  | check (read : SettledRead)
  | register
  | recheck (read : SettledRead)
deriving Repr, DecidableEq

/-- `Registration`, with its poll.  `finishedBefore` are the attempts settled
when it was created, and `wakesBefore` the wakes of its waker when that was
last put in place. -/
structure Waiter where
  settledBefore : Nat
  finishedBefore : Finset Nat
  waker : Nat
  wakesBefore : Nat
  phase : PollPhase
  last : Option Bool

/-- `WorkerLease`, with the calls and waiters it ever had. -/
structure WorkerLease where
  retired : Bool
  registered : Bool
  settledRegistrations : Nat
  pendingRegistrations : Nat
  waiters : List Nat
  wakes : Nat → Nat
  calls : List LeaseCall
  registrations : List Waiter

inductive LeaseEvent where
  | beginRegistration
  | settle (n : Nat) (succeeded : Bool)
  | dropAttempt (n : Nat)
  | retire
  | advance (n : Nat)
  | registration
  | poll (n : Nat) (waker : Nat)
  | advancePoll (n : Nat)

/-- An attempt in this phase has not stopped being pending. -/
def LeasePhase.isPending : LeasePhase → Bool
  | .live | .store | .count | .leave => true
  | _ => false

/-- An attempt in this phase was counted as settled. -/
def LeasePhase.isCounted : LeasePhase → Bool
  | .leave | .drain | .waking _ | .finished => true
  | _ => false

def LeaseCall.unsettled (call : LeaseCall) : Bool :=
  call.kind = .attempt && call.phase.isPending

def LeaseCall.counted (call : LeaseCall) : Bool :=
  call.kind = .attempt && call.phase.isCounted

/-- The call stored what it announces: a registration or the retirement. -/
def LeaseCall.stored (call : LeaseCall) : Bool :=
  match call.phase with
  | .live | .store => false
  | _ => true

/-- The call has yet to drain the waiters. -/
def LeaseCall.outstanding (call : LeaseCall) : Bool :=
  match call.phase with
  | .store | .count | .leave | .drain => true
  | _ => false

/-- The wakers the call drained and has yet to wake. -/
def LeaseCall.left (call : LeaseCall) : List Nat :=
  match call.phase with
  | .waking left => left
  | _ => []

namespace WorkerLease

def new : WorkerLease := ⟨false, false, 0, 0, [], fun _ => 0, [], []⟩

def setCall (lease : WorkerLease) (n : Nat) (call : LeaseCall) :
    WorkerLease :=
  { lease with calls := lease.calls.set n call }

def setWaiter (lease : WorkerLease) (n : Nat) (waiter : Waiter) :
    WorkerLease :=
  { lease with registrations := lease.registrations.set n waiter }

/-- The attempts counted as settled. -/
def finishedAttempts (lease : WorkerLease) : Finset Nat :=
  (Finset.range lease.calls.length).filter fun n =>
    (lease.calls[n]?).any LeaseCall.counted

def beginRegistration (lease : WorkerLease) : WorkerLease :=
  { lease with
    pendingRegistrations := lease.pendingRegistrations + 1
    calls := lease.calls ++ [⟨.attempt, false, .live⟩] }

/-- `settle` and the drop of an unsettled attempt enter
`finish_registration`. -/
def finishRegistration (lease : WorkerLease) (n : Nat) (succeeded : Bool) :
    Option WorkerLease :=
  match lease.calls[n]? with
  | some ⟨.attempt, _, .live⟩ =>
      some (lease.setCall n ⟨.attempt, succeeded, .store⟩)
  | _ => none

/-- One step of `finish_registration`, of `retire` or of `wake_waiters`. -/
def advance (lease : WorkerLease) (n : Nat) : Option WorkerLease := do
  let call ← lease.calls[n]?
  match call.kind, call.phase with
  | .attempt, .store =>
      some { lease.setCall n { call with phase := .count } with
        registered := lease.registered || call.succeeded }
  | .retire, .store =>
      some { lease.setCall n { call with phase := .drain } with
        retired := true }
  | _, .count =>
      some { lease.setCall n { call with phase := .leave } with
        settledRegistrations := lease.settledRegistrations + 1 }
  | _, .leave =>
      some { lease.setCall n { call with phase := .drain } with
        pendingRegistrations := lease.pendingRegistrations - 1 }
  | _, .drain =>
      some { lease.setCall n { call with phase := .waking lease.waiters } with
        waiters := [] }
  | _, .waking [] =>
      some (lease.setCall n { call with phase := .finished })
  | _, .waking (waker :: rest) =>
      some { lease.setCall n { call with phase := .waking rest } with
        wakes := fun other =>
          if other = waker then lease.wakes other + 1
          else lease.wakes other }
  | _, _ => none

def registration (lease : WorkerLease) : WorkerLease :=
  { lease with
    registrations := lease.registrations ++
      [⟨lease.settledRegistrations, lease.finishedAttempts, 0, 0, .idle,
        none⟩] }

def poll (lease : WorkerLease) (n waker : Nat) : Option WorkerLease := do
  let waiter ← lease.registrations[n]?
  match waiter.phase with
  | .idle =>
      some (lease.setWaiter n
        { waiter with phase := .check .registered, waker := waker })
  | _ => none

/-- One load of `is_settled`: it is settled, it is not, or the next load
decides. -/
def readSettled (lease : WorkerLease) (waiter : Waiter) :
    SettledRead → Sum Bool SettledRead
  | .registered => if lease.registered then .inl true else .inr .retired
  | .retired => if lease.retired then .inl true else .inr .settled
  | .settled =>
      if lease.settledRegistrations > waiter.settledBefore then .inr .pending
      else .inl false
  | .pending => .inl (lease.pendingRegistrations = 0)

/-- The waker is put in place, unless one that wakes the same task is. -/
def pushWaker (lease : WorkerLease) (waker : Nat) : List Nat :=
  if waker ∈ lease.waiters then lease.waiters else lease.waiters ++ [waker]

/-- One step of `Registration::poll`. -/
def advancePoll (lease : WorkerLease) (n : Nat) : Option WorkerLease := do
  let waiter ← lease.registrations[n]?
  match waiter.phase with
  | .idle => none
  | .check read =>
      match lease.readSettled waiter read with
      | .inr next =>
          some (lease.setWaiter n { waiter with phase := .check next })
      | .inl true =>
          some (lease.setWaiter n
            { waiter with phase := .idle, last := some true })
      | .inl false =>
          some (lease.setWaiter n { waiter with phase := .register })
  | .register =>
      some { lease.setWaiter n
          { waiter with
            phase := .recheck .registered
            wakesBefore := lease.wakes waiter.waker } with
        waiters := lease.pushWaker waiter.waker }
  | .recheck read =>
      match lease.readSettled waiter read with
      | .inr next =>
          some (lease.setWaiter n { waiter with phase := .recheck next })
      | .inl ready =>
          some (lease.setWaiter n
            { waiter with phase := .idle, last := some ready })

def step (lease : WorkerLease) : LeaseEvent → Option WorkerLease
  | .beginRegistration => some lease.beginRegistration
  | .settle n succeeded => lease.finishRegistration n succeeded
  | .dropAttempt n => lease.finishRegistration n false
  | .retire =>
      some { lease with
        calls := lease.calls ++ [⟨.retire, false, .store⟩] }
  | .advance n => lease.advance n
  | .registration => some lease.registration
  | .poll n waker => lease.poll n waker
  | .advancePoll n => lease.advancePoll n

def machine : Machine WorkerLease LeaseEvent where
  Initial lease := lease = new
  step := step

/-- What one step of a call does. -/
inductive Advanced (lease : WorkerLease) (n : Nat) (call : LeaseCall) :
    WorkerLease → Prop
  | store (hkind : call.kind = .attempt) (hphase : call.phase = .store) :
      Advanced lease n call
        { lease.setCall n { call with phase := .count } with
          registered := lease.registered || call.succeeded }
  | retire (hkind : call.kind = .retire) (hphase : call.phase = .store) :
      Advanced lease n call
        { lease.setCall n { call with phase := .drain } with retired := true }
  | count (hphase : call.phase = .count) :
      Advanced lease n call
        { lease.setCall n { call with phase := .leave } with
          settledRegistrations := lease.settledRegistrations + 1 }
  | leave (hphase : call.phase = .leave) :
      Advanced lease n call
        { lease.setCall n { call with phase := .drain } with
          pendingRegistrations := lease.pendingRegistrations - 1 }
  | drain (hphase : call.phase = .drain) :
      Advanced lease n call
        { lease.setCall n { call with phase := .waking lease.waiters } with
          waiters := [] }
  | done (hphase : call.phase = .waking []) :
      Advanced lease n call (lease.setCall n { call with phase := .finished })
  | wake {waker : Nat} {rest : List Nat}
      (hphase : call.phase = .waking (waker :: rest)) :
      Advanced lease n call
        { lease.setCall n { call with phase := .waking rest } with
          wakes := fun other =>
            if other = waker then lease.wakes other + 1
            else lease.wakes other }

variable {lease after : WorkerLease} {n : Nat}

theorem advance_cases (h : lease.advance n = some after) :
    ∃ call, lease.calls[n]? = some call ∧ Advanced lease n call after := by
  simp only [advance, Option.bind_eq_bind, Option.bind_eq_some_iff] at h
  obtain ⟨call, hcall, h⟩ := h
  refine ⟨call, hcall, ?_⟩
  split at h
  · rename_i hkind hphase
    obtain rfl := Option.some.inj h
    exact .store hkind hphase
  · rename_i hkind hphase
    obtain rfl := Option.some.inj h
    exact .retire hkind hphase
  · rename_i hphase
    obtain rfl := Option.some.inj h
    exact .count hphase
  · rename_i hphase
    obtain rfl := Option.some.inj h
    exact .leave hphase
  · rename_i hphase
    obtain rfl := Option.some.inj h
    exact .drain hphase
  · rename_i hphase
    obtain rfl := Option.some.inj h
    exact .done hphase
  · rename_i hphase
    obtain rfl := Option.some.inj h
    exact .wake hphase
  · cases h

section

variable {calls : List LeaseCall} {old call : LeaseCall}

theorem mem_set_iff (hold : calls[n]? = some old) {other : LeaseCall} :
    other ∈ calls.set n call ↔
      other = call ∨ ∃ m, m ≠ n ∧ calls[m]? = some other := by
  obtain ⟨hlt, _⟩ := List.getElem?_eq_some_iff.mp hold
  rw [List.mem_iff_getElem?]
  constructor
  · rintro ⟨m, hm⟩
    by_cases hsame : n = m
    · subst hsame
      rw [List.getElem?_set_self hlt] at hm
      exact Or.inl (Option.some.inj hm).symm
    · rw [List.getElem?_set_ne hsame] at hm
      exact Or.inr ⟨m, Ne.symm hsame, hm⟩
  · rintro (rfl | ⟨m, hm, hother⟩)
    · exact ⟨n, List.getElem?_set_self hlt⟩
    · exact ⟨m, by rw [List.getElem?_set_ne (Ne.symm hm)]; exact hother⟩

theorem mem_set_self (hold : calls[n]? = some old) :
    call ∈ calls.set n call :=
  (mem_set_iff hold).mpr (Or.inl rfl)

end

theorem mem_finishedAttempts {attempt : Nat} :
    attempt ∈ lease.finishedAttempts ↔
      ∃ call, lease.calls[attempt]? = some call ∧ call.counted = true := by
  simp only [finishedAttempts, Finset.mem_filter, Finset.mem_range,
    Option.any_eq_true]
  constructor
  · rintro ⟨_, call, hcall, hcounted⟩
    exact ⟨call, hcall, hcounted⟩
  · rintro ⟨call, hcall, hcounted⟩
    exact ⟨(List.getElem?_eq_some_iff.mp hcall).1, call, hcall, hcounted⟩

/-- The finished attempts once the `n`-th call was replaced. -/
theorem mem_finishedAttempts_set {old call : LeaseCall} {attempt : Nat}
    (hold : lease.calls[n]? = some old)
    (hcalls : after.calls = lease.calls.set n call) :
    attempt ∈ after.finishedAttempts ↔
      (attempt = n ∧ call.counted = true) ∨
        (attempt ≠ n ∧ attempt ∈ lease.finishedAttempts) := by
  obtain ⟨hlt, _⟩ := List.getElem?_eq_some_iff.mp hold
  rw [mem_finishedAttempts, mem_finishedAttempts, hcalls]
  by_cases hn : attempt = n
  · subst hn
    simp [hlt]
  · simp [hn, Ne.symm hn]

/-- An attempt is counted once and stays counted. -/
theorem finishedAttempts_set {old call : LeaseCall}
    (hold : lease.calls[n]? = some old)
    (hcalls : after.calls = lease.calls.set n call)
    (hcounted : old.counted = true → call.counted = true) :
    lease.finishedAttempts ⊆ after.finishedAttempts ∧
      after.finishedAttempts.card + (if old.counted then 1 else 0) =
        lease.finishedAttempts.card + if call.counted then 1 else 0 := by
  have hmem : n ∈ lease.finishedAttempts ↔ old.counted = true := by
    rw [mem_finishedAttempts, hold]
    simp
  have hsub : lease.finishedAttempts ⊆ after.finishedAttempts := by
    intro attempt hattempt
    rw [mem_finishedAttempts_set hold hcalls]
    by_cases hn : attempt = n
    · exact Or.inl ⟨hn, hcounted (hmem.mp (hn ▸ hattempt))⟩
    · exact Or.inr ⟨hn, hattempt⟩
  refine ⟨hsub, ?_⟩
  by_cases hnew : call.counted = true
  · have hinsert : after.finishedAttempts =
        insert n lease.finishedAttempts := by
      ext attempt
      rw [mem_finishedAttempts_set hold hcalls, Finset.mem_insert]
      by_cases hn : attempt = n <;> simp [hn, hnew]
    rw [hinsert]
    by_cases hwas : old.counted = true
    · rw [Finset.insert_eq_of_mem (hmem.mpr hwas), if_pos hwas, if_pos hnew]
    · rw [Finset.card_insert_of_notMem (fun hn => hwas (hmem.mp hn)),
        if_neg hwas, if_pos hnew]
  · have hwas : ¬ old.counted = true := fun hwas => hnew (hcounted hwas)
    have hsame : after.finishedAttempts = lease.finishedAttempts := by
      refine Finset.Subset.antisymm ?_ hsub
      intro attempt hattempt
      rcases (mem_finishedAttempts_set hold hcalls).mp hattempt with
        ⟨_, hyes⟩ | ⟨_, hmem⟩
      · exact absurd hyes hnew
      · exact hmem
    rw [hsame, if_neg hwas, if_neg hnew]

theorem unsettled_pos {call : LeaseCall} (hcall : lease.calls[n]? = some call)
    (hunsettled : call.unsettled = true) :
    0 < lease.calls.countP LeaseCall.unsettled :=
  List.countP_pos_iff.mpr ⟨call, List.mem_of_getElem? hcall, hunsettled⟩

/-- The condition a waiter waits for: the name was registered, or retired, or
an attempt finished after the waiter was created and none is pending. -/
def Released (lease : WorkerLease) (waiter : Waiter) : Prop :=
  (∃ call ∈ lease.calls, call.kind = .attempt ∧ call.succeeded = true ∧
      call.stored = true) ∨
    (∃ call ∈ lease.calls, call.kind = .retire ∧ call.stored = true) ∨
    ((∃ attempt ∈ lease.finishedAttempts, attempt ∉ waiter.finishedBefore) ∧
      ∀ call ∈ lease.calls, call.unsettled = false)

/-- The counters and flags say what the calls did. -/
structure Counted (lease : WorkerLease) : Prop where
  pending : lease.pendingRegistrations =
    lease.calls.countP LeaseCall.unsettled
  settled : lease.settledRegistrations = lease.finishedAttempts.card
  registered : lease.registered = true ↔ ∃ call ∈ lease.calls,
    call.kind = .attempt ∧ call.succeeded = true ∧ call.stored = true
  retired : lease.retired = true ↔
    ∃ call ∈ lease.calls, call.kind = .retire ∧ call.stored = true
  retires : ∀ call ∈ lease.calls, call.kind = .retire →
    call.phase ≠ .live ∧ call.phase ≠ .count ∧ call.phase ≠ .leave
  before : ∀ waiter ∈ lease.registrations,
    waiter.settledBefore = waiter.finishedBefore.card ∧
      waiter.finishedBefore ⊆ lease.finishedAttempts

/-- The loads of `is_settled` taken at one moment. -/
def SettledNow (lease : WorkerLease) (waiter : Waiter) : Prop :=
  lease.registered = true ∨ lease.retired = true ∨
    (lease.settledRegistrations > waiter.settledBefore ∧
      lease.pendingRegistrations = 0)

theorem Counted.released_iff (h : lease.Counted) {waiter : Waiter}
    (hwaiter : waiter ∈ lease.registrations) :
    lease.Released waiter ↔ lease.SettledNow waiter := by
  obtain ⟨hcard, hsub⟩ := h.before waiter hwaiter
  have hfinished : (∃ attempt ∈ lease.finishedAttempts,
      attempt ∉ waiter.finishedBefore) ↔
      lease.settledRegistrations > waiter.settledBefore := by
    rw [h.settled, hcard]
    constructor
    · rintro ⟨attempt, hattempt, hnot⟩
      exact Finset.card_lt_card
        ⟨hsub, fun hback => hnot (hback hattempt)⟩
    · intro hlt
      exact Finset.exists_mem_notMem_of_card_lt_card hlt
  have hpending : (∀ call ∈ lease.calls, call.unsettled = false) ↔
      lease.pendingRegistrations = 0 := by
    rw [h.pending, List.countP_eq_zero]
    simp
  simp only [Released, SettledNow, h.registered, h.retired, hfinished,
    hpending]

theorem new_counted : new.Counted where
  pending := rfl
  settled := rfl
  registered := by simp [new]
  retired := by simp [new]
  retires := by simp [new]
  before := by simp [new]

/-- A call is replaced by its next step, and the counters and flags move with
what that step announces, counts and releases. -/
theorem Counted.replace (h : lease.Counted) {old call : LeaseCall}
    (hold : lease.calls[n]? = some old)
    (hcalls : after.calls = lease.calls.set n call)
    (hregistrations : after.registrations = lease.registrations)
    (hkind : call.kind = old.kind)
    (hpending : after.pendingRegistrations + (if old.unsettled then 1 else 0) =
      lease.pendingRegistrations + if call.unsettled then 1 else 0)
    (hcounted : old.counted = true → call.counted = true)
    (hsettled : after.settledRegistrations + (if old.counted then 1 else 0) =
      lease.settledRegistrations + if call.counted then 1 else 0)
    (hregistered : after.registered = true ↔ lease.registered = true ∨
      (call.kind = .attempt ∧ call.succeeded = true ∧ call.stored = true))
    (hstored : old.stored = true →
      call.stored = true ∧ call.succeeded = old.succeeded)
    (hretired : after.retired = true ↔ lease.retired = true ∨
      (call.kind = .retire ∧ call.stored = true))
    (hretires : call.kind = .retire → call.phase ≠ .live ∧
      call.phase ≠ .count ∧ call.phase ≠ .leave) : after.Counted := by
  have hexists : ∀ {P : LeaseCall → Prop}, (P old → P call) →
      ((∃ other ∈ after.calls, P other) ↔
        (∃ other ∈ lease.calls, P other) ∨ P call) := by
    intro P hP
    rw [hcalls]
    constructor
    · rintro ⟨other, hother, hyes⟩
      rcases (mem_set_iff hold).mp hother with rfl | ⟨m, _, hm⟩
      · exact Or.inr hyes
      · exact Or.inl ⟨other, List.mem_of_getElem? hm, hyes⟩
    · rintro (⟨other, hother, hyes⟩ | hyes)
      · obtain ⟨m, hm⟩ := List.mem_iff_getElem?.mp hother
        by_cases hn : m = n
        · subst hn
          obtain rfl := Option.some.inj (hold.symm.trans hm)
          exact ⟨call, mem_set_self hold, hP hyes⟩
        · exact ⟨other, (mem_set_iff hold).mpr (Or.inr ⟨m, hn, hm⟩), hyes⟩
      · exact ⟨call, mem_set_self hold, hyes⟩
  obtain ⟨hsub, hcard⟩ := finishedAttempts_set hold hcalls hcounted
  refine ⟨?_, ?_, ?_, ?_, ?_, ?_⟩
  · obtain ⟨hlt, hget⟩ := List.getElem?_eq_some_iff.mp hold
    rw [hcalls, List.countP_set hlt, hget, ← h.pending]
    by_cases hlive : old.unsettled = true
    · have hpos := unsettled_pos hold hlive
      rw [← h.pending] at hpos
      rw [if_pos hlive] at hpending ⊢
      omega
    · rw [if_neg hlive] at hpending ⊢
      omega
  · have hbefore := h.settled
    omega
  · rw [hregistered, h.registered, hexists]
    rintro ⟨hattempt, hyes, hdone⟩
    obtain ⟨hstill, hsame⟩ := hstored hdone
    exact ⟨hkind.trans hattempt, hsame.trans hyes, hstill⟩
  · rw [hretired, h.retired, hexists]
    rintro ⟨hretire, hdone⟩
    exact ⟨hkind.trans hretire, (hstored hdone).1⟩
  · intro other hother hretire
    rw [hcalls] at hother
    rcases (mem_set_iff hold).mp hother with rfl | ⟨m, _, hm⟩
    · exact hretires hretire
    · exact h.retires other (List.mem_of_getElem? hm) hretire
  · intro waiter hwaiter
    rw [hregistrations] at hwaiter
    obtain ⟨hsize, hold⟩ := h.before waiter hwaiter
    exact ⟨hsize, hold.trans hsub⟩

/-- A call appended to the lease that announced and counted nothing. -/
theorem Counted.append (h : lease.Counted) {call : LeaseCall} {pending : Nat}
    (hstored : call.stored = false) (hcounted : call.counted = false)
    (hretire : call.kind = .retire → call.phase = .store)
    (hpending : pending = lease.pendingRegistrations +
      if call.unsettled then 1 else 0) :
    ({ lease with
        pendingRegistrations := pending
        calls := lease.calls ++ [call] } : WorkerLease).Counted := by
  have hsame : ({ lease with
      pendingRegistrations := pending
      calls := lease.calls ++ [call] } : WorkerLease).finishedAttempts =
        lease.finishedAttempts := by
    ext attempt
    rw [mem_finishedAttempts, mem_finishedAttempts]
    simp only [List.getElem?_append]
    split
    · rfl
    · rename_i hge
      rw [List.getElem?_eq_none (Nat.le_of_not_lt hge)]
      constructor
      · rintro ⟨other, hother, hyes⟩
        obtain rfl := List.mem_singleton.mp (List.mem_of_getElem? hother)
        simp [hcounted] at hyes
      · simp
  refine ⟨?_, ?_, ?_, ?_, ?_, ?_⟩
  · simp only [List.countP_append, List.countP_singleton, hpending, h.pending]
  · rw [hsame]
    exact h.settled
  · simp only [List.mem_append, List.mem_singleton, or_and_right, exists_or,
      exists_eq_left, hstored, Bool.false_eq_true, and_false, or_false]
    exact h.registered
  · simp only [List.mem_append, List.mem_singleton, or_and_right, exists_or,
      exists_eq_left, hstored, Bool.false_eq_true, and_false, or_false]
    exact h.retired
  · intro other hother hkind
    rcases List.mem_append.mp hother with hmem | hmem
    · exact h.retires other hmem hkind
    · obtain rfl := List.mem_singleton.mp hmem
      simp [hretire hkind]
  · intro waiter hwaiter
    rw [hsame]
    exact h.before waiter hwaiter

theorem or_announced {call : LeaseCall} {flag : Bool}
    (hcall : lease.calls[n]? = some call) {P : LeaseCall → Prop}
    (hflag : flag = true ↔ ∃ other ∈ lease.calls, P other) {next : LeaseCall}
    (hnext : P next → P call) : flag = true ↔ flag = true ∨ P next :=
  ⟨Or.inl, fun h => h.elim id fun hyes =>
    hflag.mpr ⟨call, List.mem_of_getElem? hcall, hnext hyes⟩⟩

/-- From its drain on, a call changes no counter and no flag. -/
theorem Counted.past (h : lease.Counted) {call next : LeaseCall}
    (hcall : lease.calls[n]? = some call)
    (hcalls : after.calls = lease.calls.set n next)
    (hregistrations : after.registrations = lease.registrations)
    (hpending : after.pendingRegistrations = lease.pendingRegistrations)
    (hsettled : after.settledRegistrations = lease.settledRegistrations)
    (hregistered : after.registered = lease.registered)
    (hretired : after.retired = lease.retired)
    (hnext : next.kind = call.kind ∧ next.succeeded = call.succeeded ∧
      (call.phase = .drain ∨ ∃ left, call.phase = .waking left) ∧
      ((∃ left, next.phase = .waking left) ∨ next.phase = .finished)) :
    after.Counted := by
  obtain ⟨hkind, hsucceeded, hphase, hafter⟩ := hnext
  have hstored : call.stored = true ∧ next.stored = true := by
    rcases hphase with hphase | ⟨_, hphase⟩ <;>
      rcases hafter with ⟨_, hafter⟩ | hafter <;>
      simp [LeaseCall.stored, hphase, hafter]
  have hcounted : next.counted = call.counted := by
    rcases hphase with hphase | ⟨_, hphase⟩ <;>
      rcases hafter with ⟨_, hafter⟩ | hafter <;>
      simp [LeaseCall.counted, LeasePhase.isCounted, hphase, hafter, hkind]
  have hunsettled : call.unsettled = false ∧ next.unsettled = false := by
    rcases hphase with hphase | ⟨_, hphase⟩ <;>
      rcases hafter with ⟨_, hafter⟩ | hafter <;>
      simp [LeaseCall.unsettled, LeasePhase.isPending, hphase, hafter]
  refine h.replace hcall hcalls hregistrations hkind ?_ ?_ ?_ ?_ ?_ ?_ ?_
  · simp [hunsettled, hpending]
  · exact fun hyes => hcounted.trans hyes
  · rw [hcounted, hsettled]
  · rw [hregistered]
    refine or_announced hcall h.registered ?_
    rintro ⟨hattempt, hyes, _⟩
    exact ⟨hkind ▸ hattempt, hsucceeded ▸ hyes, hstored.1⟩
  · exact fun _ => ⟨hstored.2, hsucceeded⟩
  · rw [hretired]
    refine or_announced hcall h.retired ?_
    rintro ⟨hretire, _⟩
    exact ⟨hkind ▸ hretire, hstored.1⟩
  · intro _
    rcases hafter with ⟨_, hafter⟩ | hafter <;> simp [hafter]

theorem Counted.advance (h : lease.Counted)
    (hstep : lease.advance n = some after) : after.Counted := by
  obtain ⟨call, hcall, hadvanced⟩ := advance_cases hstep
  have hretires := h.retires call (List.mem_of_getElem? hcall)
  have hattempt : call.phase = .count ∨ call.phase = .leave →
      call.kind = .attempt := by
    intro hphase
    cases hkind : call.kind with
    | attempt => rfl
    | retire =>
        obtain ⟨_, hcount, hleave⟩ := hretires hkind
        rcases hphase with hphase | hphase
        · exact absurd hphase hcount
        · exact absurd hphase hleave
  cases hadvanced with
  | store hkind hphase =>
      refine h.replace hcall rfl rfl rfl ?_ ?_ ?_ ?_ ?_ ?_ ?_
      · simp [LeaseCall.unsettled, LeasePhase.isPending, hkind, hphase, setCall]
      · simp [LeaseCall.counted, LeasePhase.isCounted, hkind, hphase]
      · simp [LeaseCall.counted, LeasePhase.isCounted, hkind, hphase, setCall]
      · simp [LeaseCall.stored, hkind]
      · simp [LeaseCall.stored, hphase]
      · simp [hkind, setCall]
      · simp [hkind]
  | retire hkind hphase =>
      refine h.replace hcall rfl rfl rfl ?_ ?_ ?_ ?_ ?_ ?_ ?_
      · simp [LeaseCall.unsettled, LeasePhase.isPending, hkind, setCall]
      · simp [LeaseCall.counted, LeasePhase.isCounted, hkind]
      · simp [LeaseCall.counted, LeasePhase.isCounted, hkind, setCall]
      · simp [hkind, setCall]
      · simp [LeaseCall.stored, hphase]
      · simp [LeaseCall.stored, hkind]
      · simp
  | count hphase =>
      have hkind := hattempt (Or.inl hphase)
      refine h.replace hcall rfl rfl rfl ?_ ?_ ?_ ?_ ?_ ?_ ?_
      · simp [LeaseCall.unsettled, LeasePhase.isPending, hkind, hphase, setCall]
      · simp [LeaseCall.counted, LeasePhase.isCounted, hkind]
      · simp [LeaseCall.counted, LeasePhase.isCounted, hkind, hphase]
      · exact or_announced hcall h.registered
          (by simp [LeaseCall.stored, hphase])
      · simp [LeaseCall.stored]
      · simp [hkind, setCall]
      · simp [hkind]
  | leave hphase =>
      have hkind := hattempt (Or.inr hphase)
      have hlive : call.unsettled = true := by
        simp [LeaseCall.unsettled, LeasePhase.isPending, hkind, hphase]
      have hpos := unsettled_pos hcall hlive
      rw [← h.pending] at hpos
      refine h.replace hcall rfl rfl rfl ?_ ?_ ?_ ?_ ?_ ?_ ?_
      · rw [if_pos hlive]
        simp only [LeaseCall.unsettled, LeasePhase.isPending, hkind]
        simp
        omega
      · simp [LeaseCall.counted, LeasePhase.isCounted, hkind]
      · simp [LeaseCall.counted, LeasePhase.isCounted, hkind, hphase, setCall]
      · exact or_announced hcall h.registered
          (by simp [LeaseCall.stored, hphase])
      · simp [LeaseCall.stored]
      · simp [hkind, setCall]
      · simp [hkind]
  | drain hphase => exact h.past hcall rfl rfl rfl rfl rfl rfl (by simp [hphase])
  | done hphase => exact h.past hcall rfl rfl rfl rfl rfl rfl (by simp [hphase])
  | wake hphase => exact h.past hcall rfl rfl rfl rfl rfl rfl (by simp [hphase])

/-- Polls touch no call: only what a waiter remembers of its creation
matters. -/
theorem Counted.waiters (h : lease.Counted) {registrations : List Waiter}
    {waiters : List Nat}
    (hbefore : ∀ waiter ∈ registrations,
      waiter.settledBefore = waiter.finishedBefore.card ∧
        waiter.finishedBefore ⊆ lease.finishedAttempts) :
    ({ lease with
        registrations := registrations
        waiters := waiters } : WorkerLease).Counted :=
  { h with before := hbefore }

theorem Counted.setWaiter (h : lease.Counted) {old waiter : Waiter}
    {waiters : List Nat} (hold : lease.registrations[n]? = some old)
    (hsettled : waiter.settledBefore = old.settledBefore)
    (hfinished : waiter.finishedBefore = old.finishedBefore) :
    ({ lease.setWaiter n waiter with waiters := waiters } :
      WorkerLease).Counted := by
  refine h.waiters ?_
  intro other hother
  rcases List.mem_or_eq_of_mem_set hother with hmem | rfl
  · exact h.before other hmem
  · rw [hsettled, hfinished]
    exact h.before old (List.mem_of_getElem? hold)

/-- What one step of a poll does to its waiter. -/
theorem advancePoll_cases (h : lease.advancePoll n = some after) :
    ∃ waiter, lease.registrations[n]? = some waiter ∧
      ((∃ read, waiter.phase = .check read ∧
          ((∃ next, lease.readSettled waiter read = .inr next ∧
              after = lease.setWaiter n { waiter with phase := .check next }) ∨
            (lease.readSettled waiter read = .inl true ∧
              after = lease.setWaiter n
                { waiter with phase := .idle, last := some true }) ∨
            (lease.readSettled waiter read = .inl false ∧
              after = lease.setWaiter n { waiter with phase := .register }))) ∨
        (waiter.phase = .register ∧
          after = { lease.setWaiter n
              { waiter with
                phase := .recheck .registered
                wakesBefore := lease.wakes waiter.waker } with
            waiters := lease.pushWaker waiter.waker }) ∨
        (∃ read, waiter.phase = .recheck read ∧
          ((∃ next, lease.readSettled waiter read = .inr next ∧
              after = lease.setWaiter n
                { waiter with phase := .recheck next }) ∨
            (∃ ready, lease.readSettled waiter read = .inl ready ∧
              after = lease.setWaiter n
                { waiter with phase := .idle, last := some ready })))) := by
  simp only [advancePoll, Option.bind_eq_bind, Option.bind_eq_some_iff] at h
  obtain ⟨waiter, hwaiter, h⟩ := h
  refine ⟨waiter, hwaiter, ?_⟩
  split at h
  · cases h
  · rename_i read hphase
    left
    refine ⟨read, hphase, ?_⟩
    split at h
    · rename_i next hread
      exact Or.inl ⟨next, hread, (Option.some.inj h).symm⟩
    · rename_i hread
      exact Or.inr (Or.inl ⟨hread, (Option.some.inj h).symm⟩)
    · rename_i hread
      exact Or.inr (Or.inr ⟨hread, (Option.some.inj h).symm⟩)
  · rename_i hphase
    exact Or.inr (Or.inl ⟨hphase, (Option.some.inj h).symm⟩)
  · rename_i read hphase
    refine Or.inr (Or.inr ⟨read, hphase, ?_⟩)
    split at h
    · rename_i next hread
      exact Or.inl ⟨next, hread, (Option.some.inj h).symm⟩
    · rename_i ready hread
      exact Or.inr ⟨ready, hread, (Option.some.inj h).symm⟩

theorem Counted.finishRegistration (h : lease.Counted) {succeeded : Bool}
    (hstep : lease.finishRegistration n succeeded = some after) :
    after.Counted := by
  unfold WorkerLease.finishRegistration at hstep
  split at hstep
  · rename_i old hcall
    obtain rfl := Option.some.inj hstep
    refine h.replace hcall rfl rfl rfl ?_ ?_ ?_ ?_ ?_ ?_ ?_
    · simp [LeaseCall.unsettled, LeasePhase.isPending, setCall]
    · simp [LeaseCall.counted, LeasePhase.isCounted]
    · simp [LeaseCall.counted, LeasePhase.isCounted, setCall]
    · simp [LeaseCall.stored, setCall]
    · simp [LeaseCall.stored]
    · simp [setCall]
    · simp
  · cases hstep

/-- Everything a step can do to the waiters: nothing, a new one, the start of
a poll or one step of a poll.  Settled attempts stay settled. -/
theorem step_frame {event : LeaseEvent} (h : lease.step event = some after) :
    lease.settledRegistrations ≤ after.settledRegistrations ∧
      (after.registrations = lease.registrations ∨
        after = lease.registration ∨
        (∃ n waker waiter, event = .poll n waker ∧
          lease.registrations[n]? = some waiter ∧
          after = lease.setWaiter n
            { waiter with phase := .check .registered, waker := waker }) ∨
        ∃ n, event = .advancePoll n ∧ lease.advancePoll n = some after) := by
  have hfinish : ∀ {n succeeded},
      lease.finishRegistration n succeeded = some after →
        lease.settledRegistrations ≤ after.settledRegistrations ∧
          after.registrations = lease.registrations := by
    intro n succeeded hstep
    unfold finishRegistration at hstep
    split at hstep
    · obtain rfl := Option.some.inj hstep
      exact ⟨Nat.le_refl _, rfl⟩
    · cases hstep
  cases event with
  | beginRegistration =>
      obtain rfl := Option.some.inj h
      exact ⟨Nat.le_refl _, Or.inl rfl⟩
  | settle n succeeded =>
      obtain ⟨hle, hsame⟩ := hfinish h
      exact ⟨hle, Or.inl hsame⟩
  | dropAttempt n =>
      obtain ⟨hle, hsame⟩ := hfinish h
      exact ⟨hle, Or.inl hsame⟩
  | retire =>
      obtain rfl := Option.some.inj h
      exact ⟨Nat.le_refl _, Or.inl rfl⟩
  | advance n =>
      obtain ⟨call, _, hadvanced⟩ := advance_cases h
      refine ⟨?_, Or.inl ?_⟩
      · cases hadvanced <;> simp [setCall]
      · cases hadvanced <;> rfl
  | registration =>
      obtain rfl := Option.some.inj h
      exact ⟨Nat.le_refl _, Or.inr (Or.inl rfl)⟩
  | poll n waker =>
      simp only [step, poll, Option.bind_eq_bind, Option.bind_eq_some_iff]
        at h
      obtain ⟨waiter, hwaiter, h⟩ := h
      split at h
      · obtain rfl := Option.some.inj h
        exact ⟨Nat.le_refl _,
          Or.inr (Or.inr (Or.inl ⟨n, waker, waiter, rfl, hwaiter, rfl⟩))⟩
      · cases h
  | advancePoll n =>
      refine ⟨?_, Or.inr (Or.inr (Or.inr ⟨n, rfl, h⟩))⟩
      obtain ⟨waiter, hwaiter, hcases⟩ := advancePoll_cases h
      rcases hcases with ⟨_, _, ⟨_, _, rfl⟩ | ⟨_, rfl⟩ | ⟨_, rfl⟩⟩ |
        ⟨_, rfl⟩ | ⟨_, _, ⟨_, _, rfl⟩ | ⟨_, _, rfl⟩⟩ <;> exact Nat.le_refl _

theorem Counted.step (h : lease.Counted) {event : LeaseEvent}
    (hstep : lease.step event = some after) : after.Counted := by
  cases event with
  | beginRegistration =>
      obtain rfl := Option.some.inj hstep
      exact h.append rfl rfl (by simp) rfl
  | settle n succeeded => exact h.finishRegistration hstep
  | dropAttempt n => exact h.finishRegistration hstep
  | retire =>
      obtain rfl := Option.some.inj hstep
      exact h.append rfl rfl (fun _ => rfl) rfl
  | advance n => exact h.advance hstep
  | registration =>
      obtain rfl := Option.some.inj hstep
      refine h.waiters ?_
      intro waiter hwaiter
      rcases List.mem_append.mp hwaiter with hmem | hmem
      · exact h.before waiter hmem
      · obtain rfl := List.mem_singleton.mp hmem
        exact ⟨h.settled, Finset.Subset.refl _⟩
  | poll n waker =>
      simp only [WorkerLease.step, poll, Option.bind_eq_bind,
        Option.bind_eq_some_iff] at hstep
      obtain ⟨waiter, hwaiter, hstep⟩ := hstep
      split at hstep
      · obtain rfl := Option.some.inj hstep
        exact h.setWaiter hwaiter rfl rfl
      · cases hstep
  | advancePoll n =>
      obtain ⟨waiter, hwaiter, hcases⟩ := advancePoll_cases hstep
      rcases hcases with ⟨_, _, ⟨_, _, rfl⟩ | ⟨_, rfl⟩ | ⟨_, rfl⟩⟩ |
        ⟨_, rfl⟩ | ⟨_, _, ⟨_, _, rfl⟩ | ⟨_, _, rfl⟩⟩ <;>
        exact h.setWaiter hwaiter rfl rfl

theorem reachable_counted (h : machine.Reachable lease) : lease.Counted :=
  h.invariant Counted (fun hstart => hstart ▸ new_counted)
    fun hcounted hstep => hcounted.step hstep

end WorkerLease

end ApalisPostgres
