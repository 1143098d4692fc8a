/-
Wake-ups of registration waiters.  A waker that was put in place stays in
reach of the next drain, and whatever makes a waiter's condition true has a
drain still ahead of it; so no waiter whose condition holds is left asleep.
-/
import ApalisPostgres.RegistrationWait

namespace ApalisPostgres

open RowStore

namespace WorkerLease

variable {lease after : WorkerLease} {n : Nat}

/-- The waiter's waker was woken since the poll put it in place. -/
def Woken (lease : WorkerLease) (waiter : Waiter) : Prop :=
  waiter.wakesBefore < lease.wakes waiter.waker

/-- Some call drained the waker and has yet to wake it. -/
def Held (lease : WorkerLease) (waker : Nat) : Prop :=
  ∃ call ∈ lease.calls, waker ∈ call.left

/-- Some call has yet to drain the waiters. -/
def Outstanding (lease : WorkerLease) : Prop :=
  ∃ call ∈ lease.calls, call.outstanding = true

/-- The next drain reaches the waker. -/
def InReach (lease : WorkerLease) (waker : Nat) : Prop :=
  lease.Held waker ∨ waker ∈ lease.waiters

/-- Some call under way wakes the waker. -/
def OnItsWay (lease : WorkerLease) (waker : Nat) : Prop :=
  lease.Held waker ∨ (waker ∈ lease.waiters ∧ lease.Outstanding)

/-- The waker was put in place and is in reach until it is woken. -/
def Placed (lease : WorkerLease) (waiter : Waiter) : Prop :=
  waiter.wakesBefore ≤ lease.wakes waiter.waker ∧
    (lease.Woken waiter ∨ lease.InReach waiter.waker)

/-- The waker was woken, or its wake is on its way. -/
def Due (lease : WorkerLease) (waiter : Waiter) : Prop :=
  waiter.wakesBefore ≤ lease.wakes waiter.waker ∧
    (lease.Woken waiter ∨ lease.OnItsWay waiter.waker)

theorem Placed.due {waiter : Waiter} (h : lease.Placed waiter)
    (houtstanding : lease.Outstanding) : lease.Due waiter := by
  obtain ⟨hle, hwoken | hheld | hmem⟩ := h
  · exact ⟨hle, Or.inl hwoken⟩
  · exact ⟨hle, Or.inr (Or.inl hheld)⟩
  · exact ⟨hle, Or.inr (Or.inr ⟨hmem, houtstanding⟩)⟩

/-- What a step keeps for the waiters it does not poll: wakers stay in reach,
and a condition that turns true has a drain outstanding behind it. -/
structure Carries (lease after : WorkerLease) : Prop where
  wakes : ∀ waker, lease.wakes waker ≤ after.wakes waker
  inReach : ∀ waker, lease.InReach waker →
    after.InReach waker ∨ lease.wakes waker < after.wakes waker
  onItsWay : ∀ waker, lease.OnItsWay waker →
    after.OnItsWay waker ∨ lease.wakes waker < after.wakes waker
  registered : after.registered = true →
    lease.registered = true ∨ after.Outstanding
  retired : after.retired = true → lease.retired = true ∨ after.Outstanding
  settled : ∀ waiter, after.SettledNow waiter →
    lease.SettledNow waiter ∨ after.Outstanding

theorem Carries.placed (h : lease.Carries after) {waiter : Waiter}
    (hplaced : lease.Placed waiter) : after.Placed waiter := by
  have hwakes := h.wakes waiter.waker
  obtain ⟨hle, hwoken | hreach⟩ := hplaced
  · exact ⟨hle.trans hwakes, Or.inl (Nat.lt_of_lt_of_le hwoken hwakes)⟩
  · refine ⟨hle.trans hwakes, ?_⟩
    rcases h.inReach _ hreach with hstill | hlt
    · exact Or.inr hstill
    · exact Or.inl (Nat.lt_of_le_of_lt hle hlt)

theorem Carries.due (h : lease.Carries after) {waiter : Waiter}
    (hdue : lease.Due waiter) : after.Due waiter := by
  have hwakes := h.wakes waiter.waker
  obtain ⟨hle, hwoken | hway⟩ := hdue
  · exact ⟨hle.trans hwakes, Or.inl (Nat.lt_of_lt_of_le hwoken hwakes)⟩
  · refine ⟨hle.trans hwakes, ?_⟩
    rcases h.onItsWay _ hway with hstill | hlt
    · exact Or.inr hstill
    · exact Or.inl (Nat.lt_of_le_of_lt hle hlt)

/-- The wakers held by the other calls stay held when one call is
replaced. -/
theorem Held.set {old call : LeaseCall} {waker : Nat}
    (hold : lease.calls[n]? = some old)
    (hcalls : after.calls = lease.calls.set n call)
    (h : lease.Held waker) (hleft : waker ∈ old.left → waker ∈ call.left) :
    after.Held waker := by
  obtain ⟨other, hother, hmem⟩ := h
  obtain ⟨m, hm⟩ := List.mem_iff_getElem?.mp hother
  unfold Held
  rw [hcalls]
  by_cases hn : m = n
  · subst hn
    obtain rfl := Option.some.inj (hold.symm.trans hm)
    exact ⟨call, mem_set_self hold, hleft hmem⟩
  · exact ⟨other, (mem_set_iff hold).mpr (Or.inr ⟨m, hn, hm⟩), hmem⟩

theorem Outstanding.set {old call : LeaseCall}
    (hold : lease.calls[n]? = some old)
    (hcalls : after.calls = lease.calls.set n call)
    (h : lease.Outstanding)
    (hsame : old.outstanding = true → call.outstanding = true) :
    after.Outstanding := by
  obtain ⟨other, hother, hyes⟩ := h
  obtain ⟨m, hm⟩ := List.mem_iff_getElem?.mp hother
  unfold Outstanding
  rw [hcalls]
  by_cases hn : m = n
  · subst hn
    obtain rfl := Option.some.inj (hold.symm.trans hm)
    exact ⟨call, mem_set_self hold, hsame hyes⟩
  · exact ⟨other, (mem_set_iff hold).mpr (Or.inr ⟨m, hn, hm⟩), hyes⟩

/-- A call on its way to the drain has a drain outstanding, whatever it
announces. -/
theorem carries_of_outstanding {old call : LeaseCall}
    (hold : lease.calls[n]? = some old)
    (hcalls : after.calls = lease.calls.set n call)
    (hleft : old.left = []) (houtstanding : call.outstanding = true)
    (hwakes : after.wakes = lease.wakes)
    (hwaiters : after.waiters = lease.waiters) : lease.Carries after := by
  have hdrain : after.Outstanding :=
    ⟨call, hcalls ▸ mem_set_self hold, houtstanding⟩
  have hheld : ∀ waker, lease.Held waker → after.Held waker :=
    fun waker h => h.set hold hcalls (by simp [hleft])
  refine ⟨fun waker => by rw [hwakes], ?_, ?_, fun _ => Or.inr hdrain,
    fun _ => Or.inr hdrain, fun _ _ => Or.inr hdrain⟩
  · rintro waker (h | hmem)
    · exact Or.inl (Or.inl (hheld waker h))
    · exact Or.inl (Or.inr (hwaiters ▸ hmem))
  · rintro waker (h | ⟨hmem, _⟩)
    · exact Or.inl (Or.inl (hheld waker h))
    · exact Or.inl (Or.inr ⟨hwaiters ▸ hmem, hdrain⟩)

theorem advance_carries (h : lease.advance n = some after) :
    lease.Carries after := by
  obtain ⟨call, hcall, hadvanced⟩ := advance_cases h
  cases hadvanced with
  | store hkind hphase =>
      exact carries_of_outstanding hcall rfl (by simp [LeaseCall.left, hphase])
        rfl rfl rfl
  | retire hkind hphase =>
      exact carries_of_outstanding hcall rfl (by simp [LeaseCall.left, hphase])
        rfl rfl rfl
  | count hphase =>
      exact carries_of_outstanding hcall rfl (by simp [LeaseCall.left, hphase])
        rfl rfl rfl
  | leave hphase =>
      exact carries_of_outstanding hcall rfl (by simp [LeaseCall.left, hphase])
        rfl rfl rfl
  | drain hphase =>
      -- the drain takes every waker in place into this call's hands
      have hreach : ∀ waker, lease.InReach waker → Held
          { lease.setCall n { call with phase := .waking lease.waiters } with
            waiters := [] } waker := by
        rintro waker (h | hmem)
        · exact h.set hcall rfl (by simp [LeaseCall.left, hphase])
        · exact ⟨_, mem_set_self hcall, hmem⟩
      refine ⟨fun _ => Nat.le_refl _, ?_, ?_, Or.inl, Or.inl,
        fun _ => Or.inl⟩
      · intro waker h
        exact Or.inl (Or.inl (hreach waker h))
      · rintro waker (h | ⟨hmem, _⟩)
        · exact Or.inl (Or.inl (hreach waker (Or.inl h)))
        · exact Or.inl (Or.inl (hreach waker (Or.inr hmem)))
  | done hphase =>
      have hheld : ∀ waker, lease.Held waker → Held
          (lease.setCall n { call with phase := .finished }) waker :=
        fun waker h => h.set hcall rfl (by simp [LeaseCall.left, hphase])
      refine ⟨fun _ => Nat.le_refl _, ?_, ?_, Or.inl, Or.inl,
        fun _ => Or.inl⟩
      · rintro waker (h | hmem)
        · exact Or.inl (Or.inl (hheld waker h))
        · exact Or.inl (Or.inr hmem)
      · rintro waker (h | ⟨hmem, hdrain⟩)
        · exact Or.inl (Or.inl (hheld waker h))
        · exact Or.inl (Or.inr ⟨hmem, hdrain.set hcall rfl
            (by simp [LeaseCall.outstanding, hphase])⟩)
  | @wake woken rest hphase =>
      have hheld : ∀ waker, waker ≠ woken → lease.Held waker → Held
          { lease.setCall n { call with phase := .waking rest } with
            wakes := fun other =>
              if other = woken then lease.wakes other + 1
              else lease.wakes other } waker := by
        intro waker hother h
        refine h.set hcall rfl ?_
        simp only [LeaseCall.left, hphase, List.mem_cons]
        exact fun hmem => hmem.resolve_left hother
      refine ⟨?_, ?_, ?_, Or.inl, Or.inl, fun _ => Or.inl⟩
      · intro waker
        by_cases hwaker : waker = woken <;> simp [hwaker]
      · intro waker h
        by_cases hwaker : waker = woken
        · exact Or.inr (by simp [hwaker])
        · rcases h with h | hmem
          · exact Or.inl (Or.inl (hheld waker hwaker h))
          · exact Or.inl (Or.inr hmem)
      · intro waker h
        by_cases hwaker : waker = woken
        · exact Or.inr (by simp [hwaker])
        · rcases h with h | ⟨hmem, hdrain⟩
          · exact Or.inl (Or.inl (hheld waker hwaker h))
          · exact Or.inl (Or.inr ⟨hmem, hdrain.set hcall rfl
              (by simp [LeaseCall.outstanding, hphase])⟩)

/-- A step that keeps the calls and only adds wakers. -/
theorem carries_of_waiters (hcalls : ∀ call ∈ lease.calls, call ∈ after.calls)
    (hwaiters : ∀ waker ∈ lease.waiters, waker ∈ after.waiters)
    (hwakes : after.wakes = lease.wakes)
    (hregistered : after.registered = lease.registered)
    (hretired : after.retired = lease.retired)
    (hsettled : after.settledRegistrations = lease.settledRegistrations)
    (hpending : lease.pendingRegistrations ≤ after.pendingRegistrations) :
    lease.Carries after := by
  have hheld : ∀ waker, lease.Held waker → after.Held waker := by
    rintro waker ⟨call, hcall, hmem⟩
    exact ⟨call, hcalls call hcall, hmem⟩
  refine ⟨fun waker => by rw [hwakes], ?_, ?_, ?_, ?_, ?_⟩
  · rintro waker (h | hmem)
    · exact Or.inl (Or.inl (hheld waker h))
    · exact Or.inl (Or.inr (hwaiters waker hmem))
  · rintro waker (h | ⟨hmem, call, hcall, hdrain⟩)
    · exact Or.inl (Or.inl (hheld waker h))
    · exact Or.inl (Or.inr ⟨hwaiters waker hmem, call, hcalls call hcall,
        hdrain⟩)
  · exact fun h => Or.inl (hregistered ▸ h)
  · exact fun h => Or.inl (hretired ▸ h)
  · rintro waiter (h | h | ⟨hmore, hzero⟩)
    · exact Or.inl (Or.inl (hregistered ▸ h))
    · exact Or.inl (Or.inr (Or.inl (hretired ▸ h)))
    · exact Or.inl (Or.inr (Or.inr ⟨hsettled ▸ hmore, by omega⟩))

theorem mem_pushWaker {waker other : Nat} (h : other ∈ lease.waiters) :
    other ∈ lease.pushWaker waker := by
  unfold pushWaker
  split
  · exact h
  · exact List.mem_append_left _ h

theorem self_mem_pushWaker (waker : Nat) : waker ∈ lease.pushWaker waker := by
  unfold pushWaker
  split
  · assumption
  · simp

/-- Every step carries the waiters it does not poll. -/
theorem step_carries {event : LeaseEvent}
    (h : lease.step event = some after) : lease.Carries after := by
  have hfinish : ∀ {n succeeded},
      lease.finishRegistration n succeeded = some after →
        lease.Carries after := by
    intro n succeeded hstep
    unfold finishRegistration at hstep
    split at hstep
    · rename_i old hcall
      obtain rfl := Option.some.inj hstep
      exact carries_of_outstanding hcall rfl rfl rfl rfl rfl
    · cases hstep
  cases event with
  | beginRegistration =>
      obtain rfl := Option.some.inj h
      exact carries_of_waiters (fun _ => List.mem_append_left _)
        (fun _ => id) rfl rfl rfl rfl (Nat.le_succ _)
  | settle n succeeded => exact hfinish h
  | dropAttempt n => exact hfinish h
  | retire =>
      obtain rfl := Option.some.inj h
      exact carries_of_waiters (fun _ => List.mem_append_left _)
        (fun _ => id) rfl rfl rfl rfl (Nat.le_refl _)
  | advance n => exact advance_carries h
  | registration =>
      obtain rfl := Option.some.inj h
      exact carries_of_waiters (fun _ => id) (fun _ => id) rfl rfl rfl rfl
        (Nat.le_refl _)
  | poll n waker =>
      simp only [step, poll, Option.bind_eq_bind, Option.bind_eq_some_iff]
        at h
      obtain ⟨waiter, hwaiter, h⟩ := h
      split at h
      · obtain rfl := Option.some.inj h
        exact carries_of_waiters (fun _ => id) (fun _ => id) rfl rfl rfl rfl
          (Nat.le_refl _)
      · cases h
  | advancePoll n =>
      obtain ⟨waiter, hwaiter, hcases⟩ := advancePoll_cases h
      have hquiet : ∀ waiter, lease.Carries (lease.setWaiter n waiter) :=
        fun _ => carries_of_waiters (fun _ => id) (fun _ => id) rfl rfl rfl
          rfl (Nat.le_refl _)
      rcases hcases with hcheck | ⟨_, rfl⟩ | hrecheck
      · obtain ⟨_, _, ⟨_, _, rfl⟩ | ⟨_, rfl⟩ | ⟨_, rfl⟩⟩ := hcheck <;>
          exact hquiet _
      · exact carries_of_waiters (fun _ => id) (fun _ => mem_pushWaker) rfl
          rfl rfl rfl (Nat.le_refl _)
      · obtain ⟨_, _, ⟨_, _, rfl⟩ | ⟨_, _, rfl⟩⟩ := hrecheck <;>
          exact hquiet _

/-- What holds of a waiter between its registration of the waker and its next
poll: the waker is placed, and what the recheck read as false has a wake on
its way once it is true. -/
def Covered (lease : WorkerLease) (waiter : Waiter) : Prop :=
  match waiter.phase with
  | .check _ | .register => True
  | .recheck .registered => lease.Placed waiter
  | .recheck .retired =>
      lease.Placed waiter ∧ (lease.registered = true → lease.Due waiter)
  | .recheck .settled | .recheck .pending =>
      lease.Placed waiter ∧ (lease.registered = true → lease.Due waiter) ∧
        (lease.retired = true → lease.Due waiter)
  | .idle => waiter.last = some false →
      lease.Placed waiter ∧ (lease.SettledNow waiter → lease.Due waiter)

/-- A step of others keeps a waiter covered. -/
theorem Carries.covered (h : lease.Carries after) {waiter : Waiter}
    (hcovered : lease.Covered waiter) : after.Covered waiter := by
  have hregistered : lease.Placed waiter →
      (lease.registered = true → lease.Due waiter) →
      after.registered = true → after.Due waiter := by
    intro hplaced hdue hafter
    rcases h.registered hafter with hwas | hdrain
    · exact h.due (hdue hwas)
    · exact (h.placed hplaced).due hdrain
  have hretired : lease.Placed waiter →
      (lease.retired = true → lease.Due waiter) →
      after.retired = true → after.Due waiter := by
    intro hplaced hdue hafter
    rcases h.retired hafter with hwas | hdrain
    · exact h.due (hdue hwas)
    · exact (h.placed hplaced).due hdrain
  unfold Covered at hcovered ⊢
  split
  · trivial
  · trivial
  · rename_i hphase
    simp only [hphase] at hcovered
    exact h.placed hcovered
  · rename_i hphase
    simp only [hphase] at hcovered
    exact ⟨h.placed hcovered.1, hregistered hcovered.1 hcovered.2⟩
  · rename_i hphase
    simp only [hphase] at hcovered
    exact ⟨h.placed hcovered.1, hregistered hcovered.1 hcovered.2.1,
      hretired hcovered.1 hcovered.2.2⟩
  · rename_i hphase
    simp only [hphase] at hcovered
    exact ⟨h.placed hcovered.1, hregistered hcovered.1 hcovered.2.1,
      hretired hcovered.1 hcovered.2.2⟩
  · rename_i hphase
    simp only [hphase] at hcovered
    intro hlast
    obtain ⟨hplaced, hdue⟩ := hcovered hlast
    refine ⟨h.placed hplaced, ?_⟩
    intro hnow
    rcases h.settled waiter hnow with hwas | hdrain
    · exact h.due (hdue hwas)
    · exact (h.placed hplaced).due hdrain

/-- One step of a poll keeps its own waiter covered. -/
theorem advancePoll_covered {waiter : Waiter}
    (hwaiter : lease.registrations[n]? = some waiter)
    (hcovered : lease.Covered waiter)
    (h : lease.advancePoll n = some after) :
    ∃ next, after.registrations = lease.registrations.set n next ∧
      after.Covered next := by
  obtain ⟨found, hfound, hcases⟩ := advancePoll_cases h
  obtain rfl := Option.some.inj (hwaiter.symm.trans hfound)
  rcases hcases with hcheck | ⟨hphase, rfl⟩ | ⟨read, hphase, hread⟩
  · obtain ⟨read, hphase, ⟨next, hread, rfl⟩ | ⟨hread, rfl⟩ | ⟨hread, rfl⟩⟩ :=
      hcheck
    · exact ⟨_, rfl, trivial⟩
    · exact ⟨_, rfl, by simp [Covered]⟩
    · exact ⟨_, rfl, trivial⟩
  · exact ⟨_, rfl, Nat.le_refl _,
      Or.inr (Or.inr (self_mem_pushWaker waiter.waker))⟩
  · unfold Covered at hcovered
    cases read with
    | registered =>
        simp only [hphase] at hcovered
        by_cases hflag : lease.registered = true
        · simp only [readSettled, hflag, ↓reduceIte] at hread
          obtain ⟨_, hno, _⟩ | ⟨ready, hyes, rfl⟩ := hread
          · cases hno
          · cases hyes
            exact ⟨_, rfl, by simp [Covered]⟩
        · simp only [readSettled, if_neg hflag] at hread
          obtain ⟨next, hno, rfl⟩ | ⟨ready, hyes, _⟩ := hread
          · cases hno
            exact ⟨_, rfl, hcovered, fun hyes => absurd hyes hflag⟩
          · cases hyes
    | retired =>
        simp only [hphase] at hcovered
        by_cases hflag : lease.retired = true
        · simp only [readSettled, hflag, ↓reduceIte] at hread
          obtain ⟨_, hno, _⟩ | ⟨ready, hyes, rfl⟩ := hread
          · cases hno
          · cases hyes
            exact ⟨_, rfl, by simp [Covered]⟩
        · simp only [readSettled, if_neg hflag] at hread
          obtain ⟨next, hno, rfl⟩ | ⟨ready, hyes, _⟩ := hread
          · cases hno
            exact ⟨_, rfl, hcovered.1, hcovered.2,
              fun hyes => absurd hyes hflag⟩
          · cases hyes
    | settled =>
        simp only [hphase] at hcovered
        obtain ⟨hplaced, hregistered, hretired⟩ := hcovered
        by_cases hmore : lease.settledRegistrations > waiter.settledBefore
        · simp only [readSettled, if_pos hmore] at hread
          obtain ⟨next, hno, rfl⟩ | ⟨ready, hyes, _⟩ := hread
          · cases hno
            exact ⟨_, rfl, hplaced, hregistered, hretired⟩
          · cases hyes
        · simp only [readSettled, if_neg hmore] at hread
          obtain ⟨next, hno, rfl⟩ | ⟨ready, hyes, rfl⟩ := hread
          · cases hno
          · cases hyes
            refine ⟨_, rfl, fun _ => ⟨hplaced, ?_⟩⟩
            rintro (hnow | hnow | ⟨hnow, _⟩)
            · exact hregistered hnow
            · exact hretired hnow
            · exact absurd hnow hmore
    | pending =>
        simp only [hphase] at hcovered
        obtain ⟨hplaced, hregistered, hretired⟩ := hcovered
        simp only [readSettled] at hread
        obtain ⟨next, hno, rfl⟩ | ⟨ready, hyes, rfl⟩ := hread
        · cases hno
        · obtain rfl := Sum.inl.inj hyes
          refine ⟨_, rfl, ?_⟩
          intro hlast
          refine ⟨hplaced, ?_⟩
          rintro (hnow | hnow | ⟨_, hnow⟩)
          · exact hregistered hnow
          · exact hretired hnow
          · have hzero : lease.pendingRegistrations = 0 := hnow
            simp [hzero] at hlast

theorem step_covered {event : LeaseEvent}
    (hcovered : ∀ waiter ∈ lease.registrations, lease.Covered waiter)
    (h : lease.step event = some after) :
    ∀ waiter ∈ after.registrations, after.Covered waiter := by
  have hcarries := step_carries h
  have hkept : ∀ waiter ∈ lease.registrations, after.Covered waiter :=
    fun waiter hwaiter => hcarries.covered (hcovered waiter hwaiter)
  obtain ⟨_, hsame | rfl | ⟨n, waker, old, _, hold, rfl⟩ | ⟨n, _, hpoll⟩⟩ :=
    step_frame h
  · exact hsame ▸ hkept
  · intro waiter hwaiter
    rcases List.mem_append.mp hwaiter with hmem | hmem
    · exact hkept waiter hmem
    · obtain rfl := List.mem_singleton.mp hmem
      simp [Covered]
  · intro waiter hwaiter
    rcases List.mem_or_eq_of_mem_set hwaiter with hmem | rfl
    · exact hkept waiter hmem
    · trivial
  · obtain ⟨old, hold, _⟩ := advancePoll_cases hpoll
    obtain ⟨next, hset, hnext⟩ := advancePoll_covered hold
      (hcovered old (List.mem_of_getElem? hold)) hpoll
    rw [hset]
    intro waiter hwaiter
    rcases List.mem_or_eq_of_mem_set hwaiter with hmem | rfl
    · exact hkept waiter hmem
    · exact hnext

theorem reachable_covered (h : machine.Reachable lease) :
    ∀ waiter ∈ lease.registrations, lease.Covered waiter := by
  refine h.invariant
    (fun lease => ∀ waiter ∈ lease.registrations, lease.Covered waiter) ?_
    step_covered
  rintro start rfl
  simp [new]

/-- Nobody but its own poll changes a waiter. -/
theorem step_waiter {event : LeaseEvent} {waiter : Waiter}
    (h : lease.step event = some after)
    (hwaiter : lease.registrations[n]? = some waiter)
    (hpoll : ∀ waker, event ≠ .poll n waker)
    (hadvance : event ≠ .advancePoll n) :
    after.registrations[n]? = some waiter := by
  obtain ⟨hlt, _⟩ := List.getElem?_eq_some_iff.mp hwaiter
  have hother : ∀ {m changed}, m ≠ n →
      (lease.registrations.set m changed)[n]? = some waiter := by
    intro m changed hm
    rw [List.getElem?_set_ne hm]
    exact hwaiter
  obtain ⟨_, hsame | rfl | ⟨m, waker, old, rfl, _, rfl⟩ | ⟨m, rfl, hstep⟩⟩ :=
    step_frame h
  · rw [hsame]
    exact hwaiter
  · simp only [registration]
    rw [List.getElem?_append_left hlt]
    exact hwaiter
  · refine hother ?_
    rintro rfl
    exact hpoll waker rfl
  · have hm : m ≠ n := by
      rintro rfl
      exact hadvance rfl
    obtain ⟨old, _, hcases⟩ := advancePoll_cases hstep
    rcases hcases with ⟨_, _, ⟨_, _, rfl⟩ | ⟨_, rfl⟩ | ⟨_, rfl⟩⟩ |
      ⟨_, rfl⟩ | ⟨_, _, ⟨_, _, rfl⟩ | ⟨_, _, rfl⟩⟩ <;> exact hother hm

/-- At its last load a poll has seen an attempt settle since the waiter was
created. -/
def SawSettled (lease : WorkerLease) (waiter : Waiter) : Prop :=
  waiter.phase = .check .pending ∨ waiter.phase = .recheck .pending →
    waiter.settledBefore < lease.settledRegistrations

theorem readSettled_pending {waiter : Waiter} {read : SettledRead}
    (h : lease.readSettled waiter read = .inr .pending) :
    waiter.settledBefore < lease.settledRegistrations := by
  cases read with
  | registered =>
      simp only [readSettled] at h
      split at h <;> simp at h
  | retired =>
      simp only [readSettled] at h
      split at h <;> simp at h
  | settled =>
      simp only [readSettled] at h
      split at h
      · assumption
      · simp at h
  | pending => simp [readSettled] at h

theorem step_sawSettled {event : LeaseEvent}
    (hsaw : ∀ waiter ∈ lease.registrations, lease.SawSettled waiter)
    (h : lease.step event = some after) :
    ∀ waiter ∈ after.registrations, after.SawSettled waiter := by
  obtain ⟨hle, hcases⟩ := step_frame h
  have hkept : ∀ waiter ∈ lease.registrations, after.SawSettled waiter :=
    fun waiter hwaiter hphase =>
      Nat.lt_of_lt_of_le (hsaw waiter hwaiter hphase) hle
  have hset : ∀ {m changed}, after.SawSettled changed →
      ∀ waiter ∈ lease.registrations.set m changed,
        after.SawSettled waiter := by
    intro m changed hchanged waiter hwaiter
    rcases List.mem_or_eq_of_mem_set hwaiter with hmem | rfl
    · exact hkept waiter hmem
    · exact hchanged
  rcases hcases with hsame | rfl | ⟨n, waker, old, _, hold, rfl⟩ | ⟨n, _, hpoll⟩
  · exact hsame ▸ hkept
  · intro waiter hwaiter
    rcases List.mem_append.mp hwaiter with hmem | hmem
    · exact hkept waiter hmem
    · obtain rfl := List.mem_singleton.mp hmem
      simp [SawSettled]
  · exact hset (by simp [SawSettled])
  · obtain ⟨old, hold, hcases⟩ := advancePoll_cases hpoll
    rcases hcases with ⟨_, _, ⟨_, hread, rfl⟩ | ⟨_, rfl⟩ | ⟨_, rfl⟩⟩ |
      ⟨_, rfl⟩ | ⟨_, _, ⟨_, hread, rfl⟩ | ⟨_, _, rfl⟩⟩
    · refine hset ?_
      intro hphase
      simp only [PollPhase.check.injEq, reduceCtorEq, or_false] at hphase
      exact readSettled_pending (hphase ▸ hread)
    · exact hset (by simp [SawSettled])
    · exact hset (by simp [SawSettled])
    · exact hset (by simp [SawSettled])
    · refine hset ?_
      intro hphase
      simp only [PollPhase.recheck.injEq, reduceCtorEq, false_or] at hphase
      exact readSettled_pending (hphase ▸ hread)
    · exact hset (by simp [SawSettled])

theorem reachable_sawSettled (h : machine.Reachable lease) :
    ∀ waiter ∈ lease.registrations, lease.SawSettled waiter := by
  refine h.invariant
    (fun lease => ∀ waiter ∈ lease.registrations, lease.SawSettled waiter) ?_
    step_sawSettled
  rintro start rfl
  simp [new]

/-- A load that answers "settled" is right at that moment. -/
theorem readSettled_true {waiter : Waiter} {read : SettledRead}
    (h : lease.readSettled waiter read = .inl true)
    (hsaw : read = .pending →
      waiter.settledBefore < lease.settledRegistrations) :
    lease.SettledNow waiter := by
  cases read with
  | registered =>
      simp only [readSettled] at h
      split at h
      · exact Or.inl ‹_›
      · cases h
  | retired =>
      simp only [readSettled] at h
      split at h
      · exact Or.inr (Or.inl ‹_›)
      · cases h
  | settled =>
      simp only [readSettled] at h
      split at h <;> simp at h
  | pending =>
      simp only [readSettled, Sum.inl.injEq, decide_eq_true_eq] at h
      exact Or.inr (Or.inr ⟨hsaw rfl, h⟩)

/-- A poll that returns ready does so on a condition that holds. -/
theorem ready_settledNow {waiter next : Waiter}
    (hwaiter : lease.registrations[n]? = some waiter)
    (hsaw : lease.SawSettled waiter)
    (h : lease.advancePoll n = some after)
    (hnext : after.registrations[n]? = some next)
    (hidle : next.phase = .idle) (hready : next.last = some true) :
    lease.SettledNow waiter := by
  obtain ⟨hlt, _⟩ := List.getElem?_eq_some_iff.mp hwaiter
  obtain ⟨found, hfound, hcases⟩ := advancePoll_cases h
  obtain rfl := Option.some.inj (hwaiter.symm.trans hfound)
  rcases hcases with ⟨read, hphase, ⟨_, _, rfl⟩ | ⟨hread, rfl⟩ | ⟨_, rfl⟩⟩ |
    ⟨_, rfl⟩ | ⟨read, hphase, ⟨_, _, rfl⟩ | ⟨ready, hread, rfl⟩⟩
  all_goals
    simp only [setWaiter, List.getElem?_set_self hlt, Option.some.injEq]
      at hnext
    subst hnext
    try cases hidle
  · exact readSettled_true hread
      fun hpending => hsaw (Or.inl (hpending ▸ hphase))
  · cases hready
    exact readSettled_true hread
      fun hpending => hsaw (Or.inr (hpending ▸ hphase))

/-- The steps of one waiter's poll, with none of others between them. -/
def PollsAlone (n : Nat) : WorkerLease → WorkerLease → Prop :=
  machine.FollowsBy (· = .advancePoll n)

theorem pollsAlone_step (h : lease.advancePoll n = some after)
    {later : WorkerLease} (hrest : PollsAlone n after later) :
    PollsAlone n lease later :=
  Relation.ReflTransGen.head ⟨_, rfl, h⟩ hrest

/-- One step of the poll of a waiter that was just stored. -/
theorem advancePoll_setWaiter (hlt : n < lease.registrations.length)
    (waiter : Waiter) :
    (lease.setWaiter n waiter).advancePoll n =
      match waiter.phase with
      | .idle => none
      | .check read =>
          match lease.readSettled waiter read with
          | .inr next =>
              some (lease.setWaiter n { waiter with phase := .check next })
          | .inl true =>
              some (lease.setWaiter n
                { waiter with phase := .idle, last := some true })
          | .inl false =>
              some (lease.setWaiter n { waiter with phase := .register })
      | .register =>
          some (({ lease with
            waiters := lease.pushWaker waiter.waker } : WorkerLease).setWaiter n
              { waiter with
                phase := .recheck .registered
                wakesBefore := lease.wakes waiter.waker })
      | .recheck read =>
          match lease.readSettled waiter read with
          | .inr next =>
              some (lease.setWaiter n { waiter with phase := .recheck next })
          | .inl ready =>
              some (lease.setWaiter n
                { waiter with phase := .idle, last := some ready }) := by
  have hget : (lease.setWaiter n waiter).registrations[n]? = some waiter := by
    simp [setWaiter, hlt]
  have hset : ∀ other, (lease.setWaiter n waiter).setWaiter n other =
      lease.setWaiter n other := by
    intro other
    simp [setWaiter]
  have hread : ∀ read, (lease.setWaiter n waiter).readSettled waiter read =
      lease.readSettled waiter read := by
    intro read
    cases read <;> rfl
  simp only [advancePoll, hget, Option.bind_eq_bind, Option.bind_some, hset,
    hread]
  cases hphase : waiter.phase <;> rfl

/-- The loads of one check, taken without interruption, answer for the whole
condition. -/
theorem check_alone (waiter : Waiter) (enter : SettledRead → PollPhase)
    (finish : Bool → WorkerLease)
    (hnext : ∀ read next, lease.readSettled waiter read = .inr next →
      (lease.setWaiter n { waiter with phase := enter read }).advancePoll n =
        some (lease.setWaiter n { waiter with phase := enter next }))
    (hfinish : ∀ read ready, lease.readSettled waiter read = .inl ready →
      (lease.setWaiter n { waiter with phase := enter read }).advancePoll n =
        some (finish ready)) :
    ∃ ready, (ready = true ↔ lease.SettledNow waiter) ∧
      PollsAlone n
        (lease.setWaiter n { waiter with phase := enter .registered })
        (finish ready) := by
  by_cases hregistered : lease.registered = true
  · refine ⟨true, by simp [SettledNow, hregistered], ?_⟩
    exact pollsAlone_step (hfinish .registered true
      (by simp [readSettled, hregistered])) Relation.ReflTransGen.refl
  have hfirst := hnext .registered .retired (by simp [readSettled, hregistered])
  by_cases hretired : lease.retired = true
  · refine ⟨true, by simp [SettledNow, hretired], ?_⟩
    exact pollsAlone_step hfirst (pollsAlone_step (hfinish .retired true
      (by simp [readSettled, hretired])) Relation.ReflTransGen.refl)
  have hsecond := hnext .retired .settled (by simp [readSettled, hretired])
  by_cases hmore : lease.settledRegistrations > waiter.settledBefore
  · have hthird := hnext .settled .pending (by simp [readSettled, hmore])
    refine ⟨decide (lease.pendingRegistrations = 0),
      by simp [SettledNow, hregistered, hretired, hmore], ?_⟩
    exact pollsAlone_step hfirst (pollsAlone_step hsecond
      (pollsAlone_step hthird (pollsAlone_step
        (hfinish .pending _ rfl) Relation.ReflTransGen.refl)))
  · refine ⟨false, by simp [SettledNow, hregistered, hretired, hmore], ?_⟩
    exact pollsAlone_step hfirst (pollsAlone_step hsecond
      (pollsAlone_step (hfinish .settled false
        (by simp [readSettled, hmore])) Relation.ReflTransGen.refl))

theorem firstCheck_alone (hlt : n < lease.registrations.length)
    (waiter : Waiter) :
    ∃ ready, (ready = true ↔ lease.SettledNow waiter) ∧
      PollsAlone n
        (lease.setWaiter n { waiter with phase := .check .registered })
        (lease.setWaiter n
          (if ready then { waiter with phase := .idle, last := some true }
          else { waiter with phase := .register })) := by
  refine lease.check_alone waiter PollPhase.check _ ?_ ?_
  · intro read next hread
    rw [advancePoll_setWaiter hlt]
    simp only [show lease.readSettled
      { waiter with phase := .check read } read = .inr next from hread]
  · intro read ready hread
    rw [advancePoll_setWaiter hlt]
    simp only [show lease.readSettled
      { waiter with phase := .check read } read = .inl ready from hread]
    cases ready <;> rfl

theorem recheck_alone (hlt : n < lease.registrations.length)
    (waiter : Waiter) :
    ∃ ready, (ready = true ↔ lease.SettledNow waiter) ∧
      PollsAlone n
        (lease.setWaiter n { waiter with phase := .recheck .registered })
        (lease.setWaiter n
          { waiter with phase := .idle, last := some ready }) := by
  refine lease.check_alone waiter PollPhase.recheck _ ?_ ?_
  · intro read next hread
    rw [advancePoll_setWaiter hlt]
    simp only [show lease.readSettled
      { waiter with phase := .recheck read } read = .inr next from hread]
  · intro read ready hread
    rw [advancePoll_setWaiter hlt]
    simp only [show lease.readSettled
      { waiter with phase := .recheck read } read = .inl ready from hread]

/-- A poll that nothing interrupts returns ready exactly on the condition. -/
theorem poll_alone {waiter : Waiter} {waker : Nat} {started : WorkerLease}
    (hwaiter : lease.registrations[n]? = some waiter)
    (h : lease.step (.poll n waker) = some started) :
    ∃ finished next ready, PollsAlone n started finished ∧
      finished.registrations[n]? = some next ∧ next.phase = .idle ∧
      next.last = some ready ∧
      (ready = true ↔ lease.SettledNow waiter) := by
  obtain ⟨hlt, _⟩ := List.getElem?_eq_some_iff.mp hwaiter
  simp only [step, poll, hwaiter, Option.bind_eq_bind, Option.bind_some] at h
  split at h
  · obtain rfl := Option.some.inj h
    obtain ⟨ready, hready, hcheck⟩ :=
      firstCheck_alone hlt { waiter with waker := waker }
    cases ready with
    | true =>
        exact ⟨_, _, true, hcheck, List.getElem?_set_self hlt, rfl, rfl,
          hready⟩
    | false =>
        let placed : WorkerLease :=
          { lease with waiters := lease.pushWaker waker }
        have hplaced : n < placed.registrations.length := hlt
        obtain ⟨ready, hagain, hrecheck⟩ := recheck_alone hplaced
          { waiter with waker := waker, wakesBefore := lease.wakes waker }
        have hregister : (lease.setWaiter n
            { waiter with waker := waker, phase := .register }).advancePoll n =
              some (placed.setWaiter n
                { waiter with
                  waker := waker
                  wakesBefore := lease.wakes waker
                  phase := .recheck .registered }) := by
          rw [advancePoll_setWaiter hlt]
        exact ⟨_, _, ready, hcheck.trans (pollsAlone_step hregister hrecheck),
          List.getElem?_set_self hlt, rfl, rfl, hagain⟩
  · cases h

/-- No call is between its entry and its last wake. -/
def Quiet (lease : WorkerLease) : Prop :=
  ∀ call ∈ lease.calls, call.outstanding = false ∧ call.left = []

theorem Due.woken {waiter : Waiter} (h : lease.Due waiter)
    (hquiet : lease.Quiet) : lease.Woken waiter := by
  obtain ⟨_, hwoken | ⟨call, hcall, hmem⟩ | ⟨_, call, hcall, hyes⟩⟩ := h
  · exact hwoken
  · simp [(hquiet call hcall).2] at hmem
  · simp [(hquiet call hcall).1] at hyes

/-- A wake on its way stays on its way until the waiter is polled again. -/
theorem due_follows {waiter : Waiter} {later : WorkerLease}
    (hwaiter : lease.registrations[n]? = some waiter)
    (hidle : waiter.phase = .idle) (hdue : lease.Due waiter)
    (h : machine.FollowsBy (fun event => ∀ waker, event ≠ .poll n waker)
      lease later) :
    later.registrations[n]? = some waiter ∧ later.Due waiter := by
  refine h.invariant (fun lease : WorkerLease =>
    lease.registrations[n]? = some waiter ∧ lease.Due waiter) ?_
    ⟨hwaiter, hdue⟩
  rintro lease after event ⟨hwaiter, hdue⟩ hpoll hstep
  refine ⟨step_waiter hstep hwaiter hpoll ?_, (step_carries hstep).due hdue⟩
  rintro rfl
  obtain ⟨found, hfound, hcases⟩ := advancePoll_cases hstep
  obtain rfl := Option.some.inj (hwaiter.symm.trans hfound)
  rcases hcases with ⟨_, hphase, _⟩ | ⟨hphase, _⟩ | ⟨_, hphase, _⟩ <;>
    simp [hidle] at hphase

/-- In every interleaving of attempts, settlements, drops, retirements and
polls of one lease: the pending counter counts the unsettled attempts and is
positive where it is decremented; a poll that runs alone is ready exactly when
the name was registered, is retired, or an attempt finished since the waiter
was created and none is pending, and one that is interrupted is ready only on
that condition; and a waiter that was last left pending and whose condition
has since held is woken once the calls under way are through, unless it is
polled before. -/
theorem registration_wait (h : machine.Reachable lease) :
    lease.pendingRegistrations = lease.calls.countP LeaseCall.unsettled ∧
      (∀ call ∈ lease.calls, call.phase = .leave →
        0 < lease.pendingRegistrations) ∧
      ∀ n waiter, lease.registrations[n]? = some waiter →
        (∀ waker started, lease.step (.poll n waker) = some started →
          ∃ finished next ready, PollsAlone n started finished ∧
            finished.registrations[n]? = some next ∧ next.phase = .idle ∧
            next.last = some ready ∧
            (ready = true ↔ lease.Released waiter)) ∧
        (∀ after next, lease.step (.advancePoll n) = some after →
          after.registrations[n]? = some next → next.phase = .idle →
          next.last = some true → lease.Released waiter) ∧
        (waiter.phase = .idle → waiter.last = some false →
          lease.Released waiter →
          ∀ later, machine.FollowsBy
              (fun event => ∀ waker, event ≠ .poll n waker) lease later →
            later.registrations[n]? = some waiter ∧ later.Due waiter ∧
              (later.Quiet → later.Woken waiter)) := by
  have hcounted := reachable_counted h
  refine ⟨hcounted.pending, ?_, ?_⟩
  · intro call hcall hphase
    have hkind : call.kind = .attempt := by
      cases hkind : call.kind with
      | attempt => rfl
      | retire => exact absurd hphase (hcounted.retires call hcall hkind).2.2
    rw [hcounted.pending, List.countP_pos_iff]
    exact ⟨call, hcall,
      by simp [LeaseCall.unsettled, LeasePhase.isPending, hkind, hphase]⟩
  · intro n waiter hwaiter
    have hmem := List.mem_of_getElem? hwaiter
    have hreleased := hcounted.released_iff hmem
    refine ⟨?_, ?_, ?_⟩
    · intro waker started hpoll
      simpa only [hreleased] using poll_alone hwaiter hpoll
    · intro after next hstep hnext hidle hready
      exact hreleased.mpr (ready_settledNow hwaiter
        (reachable_sawSettled h waiter hmem) hstep hnext hidle hready)
    · intro hidle hlast hnow later hlater
      have hcovered := reachable_covered h waiter hmem
      unfold Covered at hcovered
      simp only [hidle] at hcovered
      have hdue := (hcovered hlast).2 (hreleased.mp hnow)
      obtain ⟨hsame, hstill⟩ := due_follows hwaiter hidle hdue hlater
      exact ⟨hsame, hstill, hstill.woken⟩

/-- A heartbeat is left pending behind an attempt; the attempt is dropped and
no longer pending, and its drain and wake reach the heartbeat. -/
theorem registration_wait_dropped_attempt :
    ∃ (lease later : WorkerLease) (waiter : Waiter),
      machine.Reachable lease ∧ lease.registrations[0]? = some waiter ∧
        waiter.last = some false ∧ lease.Released waiter ∧
        ¬ lease.Woken waiter ∧ later.Quiet ∧ later.Woken waiter := by
  let before : List LeaseEvent := [.beginRegistration, .registration,
    .poll 0 7, .advancePoll 0, .advancePoll 0, .advancePoll 0, .advancePoll 0,
    .advancePoll 0, .advancePoll 0, .advancePoll 0, .dropAttempt 0,
    .advance 0, .advance 0, .advance 0]
  let events : List LeaseEvent := [.advance 0, .advance 0, .advance 0]
  let lease : WorkerLease := (machine.run new before).get rfl
  let later : WorkerLease := (machine.run lease events).get rfl
  let waiter : Waiter := ⟨0, ∅, 7, 0, .idle, some false⟩
  have hlease : machine.Reachable lease :=
    ⟨new, rfl, Machine.follows_of_run before rfl⟩
  have hlater : machine.FollowsBy (fun event => ∀ waker, event ≠ .poll 0 waker)
      lease later :=
    Machine.followsBy_of_run events (by simp [events]) rfl
  have hwaiter : lease.registrations[0]? = some waiter := rfl
  have hreleased : lease.Released waiter := by
    refine Or.inr (Or.inr ⟨⟨0, by decide, by simp [waiter]⟩, ?_⟩)
    decide
  have hquiet : later.Quiet := by
    unfold Quiet
    decide
  obtain ⟨_, _, hwaiters⟩ := registration_wait hlease
  obtain ⟨_, _, hwoken⟩ :=
    (hwaiters 0 waiter hwaiter).2.2 rfl rfl hreleased later hlater
  exact ⟨lease, later, waiter, hlease, hwaiter, rfl, hreleased,
    Nat.lt_irrefl 0, hquiet, hwoken hquiet⟩

end WorkerLease

end ApalisPostgres
