/-
Every run of the lease streams of one name.  The invariant of a stream is kept
by its own polls and drops and by those of the others, and the counters of the
lease are the sums over its streams.
-/
import ApalisPostgres.LeaseProtocol
import Mathlib.Algebra.GroupWithZero.Nat
import Mathlib.Algebra.Order.BigOperators.Group.List
import Mathlib.Algebra.Order.Group.Nat

namespace ApalisPostgres

open RowStore

namespace Fetcher

namespace LeaseStream

variable {T : Type} {lease : Lease} {stream : LeaseStream T}

/-- Whether the stream holds an attempt that is not settled yet. -/
def waiting (stream : LeaseStream T) : Nat :=
  if stream.registration = .pending ∧ stream.dropped = false then 1 else 0

/-- The counters of the lease move with the stream. -/
structure Balanced (lease : Lease) (stream : LeaseStream T) (moved : Lease)
    (after : LeaseStream T) : Prop where
  settled : moved.settledRegistrations + (settlements stream.log).length =
    lease.settledRegistrations + (settlements after.log).length
  pending : moved.pendingRegistrations + stream.waiting =
    lease.pendingRegistrations + after.waiting

theorem Balanced.trans {moved last : Lease} {after final : LeaseStream T}
    (h : Balanced lease stream moved after)
    (hnext : Balanced moved after last final) :
    Balanced lease stream last final where
  settled := by
    have := h.settled
    have := hnext.settled
    omega
  pending := by
    have := h.pending
    have := hnext.pending
    omega

/-- Entries that settle nothing leave the counters alone. -/
theorem Balanced.record {moved : Lease} {ended : Bool}
    {entries : List (LeaseEntry T)}
    (hsettled : moved.settledRegistrations = lease.settledRegistrations)
    (hpending : moved.pendingRegistrations = lease.pendingRegistrations)
    (hnone : settlements entries = []) :
    Balanced lease stream moved
      ({ stream with ended := ended }.record entries) where
  settled := by simp [LeaseStream.record, hnone, hsettled]
  pending := by
    rw [hpending]
    rfl

theorem register_balanced (hdropped : stream.dropped = false) :
    Balanced lease stream (register lease stream).1
      (register lease stream).2 := by
  unfold register
  split
  · rename_i hbegins
    have hfresh : stream.registration = .notBegun := by
      simp only [begins, Bool.and_eq_true, decide_eq_true_eq] at hbegins
      exact hbegins.2
    refine ⟨by simp [record, Lease.beginRegistration, settlements], ?_⟩
    simp [record, waiting, Lease.beginRegistration, hfresh, hdropped]
  · exact ⟨rfl, rfl⟩

theorem settle_balanced (inner : ItemPoll T) (hdropped : stream.dropped = false)
    (hcounted : stream.waiting ≤ lease.pendingRegistrations) :
    Balanced lease stream (settle lease stream inner).1
      (settle lease stream inner).2 := by
  unfold settle
  split
  · rename_i hpending
    split
    · rename_i succeeded hitem
      have hwaiting : stream.waiting = 1 := if_pos ⟨hpending, hdropped⟩
      refine ⟨?_, ?_⟩
      · simp [record, Lease.finishRegistration, settlements]
        omega
      · rw [hwaiting] at hcounted ⊢
        simp [record, waiting, Lease.finishRegistration]
        omega
    · exact ⟨rfl, rfl⟩
  · exact ⟨rfl, rfl⟩

theorem Balanced.counted {moved : Lease} {after : LeaseStream T}
    (h : Balanced lease stream moved after)
    (hcounted : stream.waiting ≤ lease.pendingRegistrations) :
    after.waiting ≤ moved.pendingRegistrations := by
  have := h.pending
  omega

theorem register_dropped :
    (register lease stream).2.dropped = stream.dropped := by
  unfold register
  split <;> rfl

theorem Balanced.retire (retires : Bool) {entries : List (LeaseEntry T)}
    (hnone : settlements entries = []) :
    Balanced lease stream (if retires then lease.retire else lease)
      (stream.record entries) := by
  cases retires with
  | true => exact .record rfl rfl hnone
  | false => exact .record rfl rfl hnone

theorem pollNext_balanced (inner : ItemPoll T) (meanwhile : Bool)
    (hdropped : stream.dropped = false)
    (hcounted : stream.waiting ≤ lease.pendingRegistrations) :
    Balanced lease stream (stream.pollNext lease inner meanwhile).1
      (stream.pollNext lease inner meanwhile).2 := by
  have hcalled : Balanced lease stream lease
      (stream.record [.called (!lease.retired)]) := .record rfl rfl rfl
  unfold pollNext
  split
  · exact hcalled.trans (.record rfl rfl rfl)
  · split
    · exact hcalled.trans (.record rfl rfl rfl)
    · have hregistered := hcalled.trans (register_balanced hdropped)
      have hduring := hregistered.trans (.retire meanwhile
        (show settlements [LeaseEntry.polled] = [] from rfl))
      have hsettled := hduring.trans (settle_balanced inner
        (register_dropped.trans hdropped) (hduring.counted hcounted))
      exact hsettled.trans (.retire inner.outcomeUnknown rfl)

theorem drop_balanced (hdropped : stream.dropped = false)
    (hcounted : stream.waiting ≤ lease.pendingRegistrations) :
    Balanced lease stream (stream.drop lease).1 (stream.drop lease).2 := by
  have hguard : Balanced lease stream
      (if stream.guarded then lease.retire else lease) (stream.record []) :=
    .retire stream.guarded rfl
  refine hguard.trans ?_
  have hstill := hguard.counted hcounted
  revert hstill
  unfold drop
  generalize (if stream.guarded then lease.retire else lease) = unguarded
  intro hstill
  by_cases hpending : stream.registration = .pending
  · simp only [if_pos hpending]
    have hwaiting : (stream.record []).waiting = 1 :=
      if_pos ⟨hpending, hdropped⟩
    rw [hwaiting] at hstill
    have hrefused : settlements
        ([.settled false, .dropped] : List (LeaseEntry T)) = [false] := rfl
    refine ⟨?_, ?_⟩
    · simp [record, Lease.finishRegistration, hrefused]
      omega
    · rw [hwaiting]
      simp [record, waiting, Lease.finishRegistration]
      omega
  · simp only [if_neg hpending]
    exact ⟨by simp [record, settlements], by simp [record, waiting, hpending]⟩

end LeaseStream

section

variable {α : Type}

/-- Replacing one entry of a list changes a sum by that entry. -/
theorem sum_map_set (f : α → Nat) {entries : List α} {n : Nat} {old : α}
    (hold : entries[n]? = some old) (new : α) :
    ((entries.set n new).map f).sum + f old = (entries.map f).sum + f new := by
  induction entries generalizing n with
  | nil => simp at hold
  | cons entry rest ih =>
      cases n with
      | zero =>
          simp only [List.getElem?_cons_zero, Option.some.injEq] at hold
          simp only [List.set_cons_zero, List.map_cons, List.sum_cons, hold]
          omega
      | succ n =>
          have hrest := ih (by simpa using hold)
          simp only [List.set_cons_succ, List.map_cons, List.sum_cons]
          omega

end

namespace LeaseSystem

variable {T : Type} {workerId : String} {system after : LeaseSystem T}

/-- The invariant of the streams of a name: each keeps its own, and the lease
counts their attempts. -/
structure Sound (workerId : String) (system : LeaseSystem T) : Prop where
  workerId : system.lease.workerId = workerId
  kept : ∀ stream ∈ system.streams, stream.Kept system.lease
  settled : system.lease.settledRegistrations =
    (system.streams.map fun stream => (settlements stream.log).length).sum
  pending : system.lease.pendingRegistrations =
    (system.streams.map LeaseStream.waiting).sum

theorem Sound.counted (h : system.Sound workerId) {n : Nat}
    {stream : LeaseStream T} (hstream : system.streams[n]? = some stream) :
    stream.waiting ≤ system.lease.pendingRegistrations := by
  rw [h.pending]
  exact List.single_le_sum (by simp) _
    (List.mem_map_of_mem (List.mem_of_getElem? hstream))

/-- A balanced change of one stream that keeps its invariant keeps that of
the system. -/
theorem Sound.set (h : system.Sound workerId) {n : Nat} {retires : Bool}
    {stream changed : LeaseStream T} {moved : Lease}
    (hstream : system.streams[n]? = some stream)
    (hmoves : system.lease.Moves moved retires)
    (hkept : changed.Kept moved)
    (hbalanced : stream.Balanced system.lease moved changed) :
    Sound workerId ⟨moved, system.streams.set n changed⟩ where
  workerId := hmoves.workerId.trans h.workerId
  kept := by
    intro other hother
    rcases List.mem_or_eq_of_mem_set hother with hmem | rfl
    · exact (h.kept other hmem).moves hmoves
    · exact hkept
  settled := by
    have hsum := sum_map_set
      (fun stream : LeaseStream T => (settlements stream.log).length)
      hstream changed
    have := hbalanced.settled
    have := h.settled
    simp only at hsum ⊢
    omega
  pending := by
    have hsum := sum_map_set LeaseStream.waiting hstream changed
    have := hbalanced.pending
    have := h.pending
    simp only at hsum ⊢
    omega

/-- What can happen to the streams of a name in one step. -/
inductive Stepped (system : LeaseSystem T) :
    LeaseSystemEvent T → LeaseSystem T → Prop where
  | openStream (retireOnDrop : Bool) : Stepped system (.openStream retireOnDrop)
      { system with streams := system.streams ++ [.new retireOnDrop] }
  | poll {n : Nat} {stream : LeaseStream T} (inner : ItemPoll T)
      (meanwhile : Bool) (hstream : system.streams[n]? = some stream)
      (hdropped : stream.dropped = false) :
      Stepped system (.poll n inner meanwhile)
        ⟨(stream.pollNext system.lease inner meanwhile).1,
          system.streams.set n
            (stream.pollNext system.lease inner meanwhile).2⟩
  | drop {n : Nat} {stream : LeaseStream T}
      (hstream : system.streams[n]? = some stream)
      (hdropped : stream.dropped = false) :
      Stepped system (.drop n)
        ⟨(stream.drop system.lease).1,
          system.streams.set n (stream.drop system.lease).2⟩
  | retire : Stepped system .retire { system with lease := system.lease.retire }

theorem update_eq_some {n : Nat}
    {change : Lease → LeaseStream T → Lease × LeaseStream T}
    (h : system.update n change = some after) :
    ∃ stream, system.streams[n]? = some stream ∧ stream.dropped = false ∧
      after = ⟨(change system.lease stream).1,
        system.streams.set n (change system.lease stream).2⟩ := by
  unfold update at h
  cases hstream : system.streams[n]? with
  | none => simp [hstream] at h
  | some stream =>
      rw [hstream] at h
      cases hdropped : stream.dropped with
      | true => simp [hdropped] at h
      | false =>
          simp only [hdropped, Bool.false_eq_true, ↓reduceIte,
            Option.some.injEq] at h
          exact ⟨stream, rfl, hdropped, h.symm⟩

theorem step_stepped {event : LeaseSystemEvent T}
    (h : system.step event = some after) : Stepped system event after := by
  cases event with
  | openStream retireOnDrop =>
      obtain rfl := Option.some.inj h
      exact .openStream retireOnDrop
  | poll n inner meanwhile =>
      simp only [step] at h
      obtain ⟨stream, hstream, hdropped, rfl⟩ := update_eq_some h
      exact .poll inner meanwhile hstream hdropped
  | drop n =>
      simp only [step] at h
      obtain ⟨stream, hstream, hdropped, rfl⟩ := update_eq_some h
      exact .drop hstream hdropped
  | retire =>
      obtain rfl := Option.some.inj h
      exact .retire

theorem Sound.step (h : system.Sound workerId) {event : LeaseSystemEvent T}
    (hstep : system.step event = some after) : after.Sound workerId := by
  cases step_stepped hstep with
  | openStream retireOnDrop =>
      refine ⟨h.workerId, ?_, ?_, ?_⟩
      · intro stream hstream
        rcases List.mem_append.mp hstream with hmem | hmem
        · exact h.kept stream hmem
        · obtain rfl := List.mem_singleton.mp hmem
          exact LeaseStream.new_kept retireOnDrop
      · simp [h.settled, LeaseStream.new, settlements]
      · simp [h.pending, LeaseStream.new, LeaseStream.waiting]
  | poll inner meanwhile hstream hdropped =>
      rename_i n stream
      have hkept := h.kept stream (List.mem_of_getElem? hstream)
      obtain ⟨retires, hmoves, -⟩ :=
        @LeaseStream.pollNext_lease _ system.lease stream inner meanwhile
      exact h.set hstream hmoves (hkept.pollNext hdropped inner meanwhile)
        (LeaseStream.pollNext_balanced inner meanwhile hdropped
          (h.counted hstream))
  | drop hstream hdropped =>
      rename_i n stream
      have hkept := h.kept stream (List.mem_of_getElem? hstream)
      exact h.set hstream LeaseStream.drop_lease (hkept.drop hdropped)
        (LeaseStream.drop_balanced hdropped (h.counted hstream))
  | retire =>
      have hmoves : system.lease.Moves system.lease.retire true :=
        ⟨rfl, by simp [Lease.retire]⟩
      exact ⟨h.workerId, fun stream hstream =>
        (h.kept stream hstream).moves hmoves, h.settled, h.pending⟩

theorem reachable_sound (h : (machine workerId).Reachable system) :
    system.Sound workerId := by
  refine h.invariant (fun system => system.Sound workerId) ?_ ?_
  · rintro start rfl
    exact ⟨rfl, by simp, rfl, rfl⟩
  · intro state next event hstate hevent
    exact hstate.step hevent

/-- A step retires the name or leaves it as it is. -/
theorem step_retired {event : LeaseSystemEvent T}
    (hstep : system.step event = some after)
    (hretired : system.lease.retired = true) : after.lease.retired = true := by
  cases step_stepped hstep with
  | openStream retireOnDrop => exact hretired
  | poll inner meanwhile hstream hdropped =>
      rename_i n stream
      obtain ⟨retires, hmoves, -⟩ :=
        @LeaseStream.pollNext_lease _ system.lease stream inner meanwhile
      simp [hmoves.retired, hretired]
  | drop hstream hdropped =>
      simp [LeaseStream.drop_lease.retired, hretired]
  | retire => rfl

end LeaseSystem

section

variable {T : Type}

/-- How often the log says that the stream was polled. -/
def calls (log : List (LeaseEntry T)) : Nat :=
  log.countP fun
    | .called _ => true
    | _ => false

/-- What the polls of the log answered. -/
def answers (log : List (LeaseEntry T)) : List (ItemPoll T) :=
  log.filterMap fun
    | .returned poll => some poll
    | _ => none

@[simp] theorem calls_append (log entries : List (LeaseEntry T)) :
    calls (log ++ entries) = calls log + calls entries := by
  simp [calls]

@[simp] theorem answers_append (log entries : List (LeaseEntry T)) :
    answers (log ++ entries) = answers log ++ answers entries := by
  simp [answers]

/-- The answers of the polls of a retired name: the retirement once, if it was
not told before, and then the end. -/
def retirementAnswers (workerId : String) : Bool → Nat → List (ItemPoll T)
  | _, 0 => []
  | false, polls + 1 => .item (.error (.workerRetired workerId)) ::
      List.replicate polls .ended
  | true, polls + 1 => List.replicate (polls + 1) .ended

/-- The next answer of a retired name. -/
theorem retirementAnswers_succ (workerId : String) (told : Bool)
    (polls : Nat) :
    (retirementAnswers workerId told (polls + 1) : List (ItemPoll T)) =
      retirementAnswers workerId told polls ++
        [if told || 0 < polls then .ended
          else .item (.error (.workerRetired workerId))] := by
  cases told with
  | true =>
      cases polls with
      | zero => rfl
      | succ polls =>
          simp [retirementAnswers, List.replicate_succ']
  | false =>
      cases polls with
      | zero => rfl
      | succ polls =>
          simp [retirementAnswers, List.replicate_succ']

end

namespace LeaseSystem

variable {T : Type} {workerId : String} {system after : LeaseSystem T}

/-- A stream whose name is retired and whose log was `since` before: it was
not polled inside again, and its answers tell of the retirement. -/
def Silenced (workerId : String) (told : Bool) (since : List (LeaseEntry T))
    (stream : LeaseStream T) : Prop :=
  ∃ entries, stream.log = since ++ entries ∧ LeaseEntry.polled ∉ entries ∧
    answers entries = retirementAnswers workerId told (calls entries) ∧
    stream.ended = (told || decide (0 < calls entries))

/-- The next poll of a retired name. -/
theorem Silenced.next {told active : Bool} {since : List (LeaseEntry T)}
    {stream : LeaseStream T} (h : Silenced workerId told since stream)
    {answer : ItemPoll T} (hanswer : answer = if stream.ended then .ended
      else .item (.error (.workerRetired workerId))) :
    Silenced workerId told since ({ stream with ended := true }.record
      [.called active, .returned answer]) := by
  obtain ⟨entries, hlog, hpolled, hanswers, hended⟩ := h
  refine ⟨entries ++ [.called active, .returned answer], ?_, ?_, ?_, ?_⟩
  · simp [LeaseStream.record, hlog]
  · simp [hpolled]
  · have hnext := @retirementAnswers_succ T workerId told (calls entries)
    have hcalls : calls [LeaseEntry.called active, .returned answer] = 1 := rfl
    rw [← hended, ← hanswer] at hnext
    rw [answers_append, calls_append, hcalls, hnext, hanswers]
    rfl
  · have hcalls : calls [LeaseEntry.called active, .returned answer] = 1 := rfl
    simp [LeaseStream.record, hcalls]

/-- A poll of a retired name does not reach the stream inside. -/
theorem Silenced.pollNext {told : Bool} {since : List (LeaseEntry T)}
    {lease : Lease} {stream : LeaseStream T}
    (h : Silenced lease.workerId told since stream)
    (hretired : lease.retired = true) (inner : ItemPoll T) (meanwhile : Bool) :
    Silenced lease.workerId told since
      (stream.pollNext lease inner meanwhile).2 := by
  have hlater : LeaseStream.Polled lease stream inner _ :=
    LeaseStream.pollNext_polled inner meanwhile
  generalize (stream.pollNext lease inner meanwhile).2 = later at hlater ⊢
  cases hlater with
  | finished hended =>
      have hsame : { stream with ended := true } = stream := by rw [← hended]
      have hnext := @Silenced.next _ _ _ (!lease.retired) _ _ h .ended
        (by simp [hended])
      rw [hsame] at hnext
      exact hnext
  | retired hopen _ => exact h.next (by simp [hopen])
  | first _ hactive _ _ _ => simp [hretired] at hactive
  | firstSettled _ _ hactive _ _ _ => simp [hretired] at hactive
  | settled _ _ hactive _ _ => simp [hretired] at hactive
  | plain _ hactive _ _ => simp [hretired] at hactive

/-- What is neither a poll nor an answer changes nothing. -/
theorem Silenced.record {told : Bool} {since silent : List (LeaseEntry T)}
    {stream later : LeaseStream T} (h : Silenced workerId told since stream)
    (hlog : later.log = stream.log ++ silent)
    (hended : later.ended = stream.ended) (hcalls : calls silent = 0)
    (hanswers : answers silent = []) (hpolled : LeaseEntry.polled ∉ silent) :
    Silenced workerId told since later := by
  obtain ⟨entries, hentries, hquiet, htold, hover⟩ := h
  refine ⟨entries ++ silent, ?_, ?_, ?_, ?_⟩
  · rw [hlog, hentries, List.append_assoc]
  · simp [hquiet, hpolled]
  · simp [hcalls, hanswers, htold]
  · simp [hcalls, hended, hover]

theorem Silenced.drop {told : Bool} {since : List (LeaseEntry T)}
    {lease : Lease} {stream : LeaseStream T}
    (h : Silenced workerId told since stream) :
    Silenced workerId told since (stream.drop lease).2 := by
  by_cases hpending : stream.registration = .pending
  · simp only [LeaseStream.drop, if_pos hpending]
    exact h.record rfl rfl rfl rfl (by simp)
  · simp only [LeaseStream.drop, if_neg hpending]
    exact h.record rfl rfl rfl rfl (by simp)

/-- Once its name is retired a stream stays silenced. -/
theorem Silenced.step {told : Bool} {since : List (LeaseEntry T)} {n : Nat}
    {event : LeaseSystemEvent T} (hsystem : system.lease.workerId = workerId)
    (hretired : system.lease.retired = true)
    (h : ∃ stream, system.streams[n]? = some stream ∧
      Silenced workerId told since stream)
    (hstep : system.step event = some after) :
    ∃ stream, after.streams[n]? = some stream ∧
      Silenced workerId told since stream := by
  obtain ⟨stream, hstream, hsilenced⟩ := h
  have hlt : n < system.streams.length :=
    (List.getElem?_eq_some_iff.mp hstream).1
  cases step_stepped hstep with
  | openStream retireOnDrop =>
      exact ⟨stream, by rw [List.getElem?_append_left hlt, hstream], hsilenced⟩
  | poll inner meanwhile hpolled hdropped =>
      rename_i m polled
      by_cases hsame : m = n
      · subst hsame
        obtain rfl := Option.some.inj (hpolled.symm.trans hstream)
        subst hsystem
        exact ⟨_, List.getElem?_set_self hlt,
          hsilenced.pollNext hretired inner meanwhile⟩
      · exact ⟨stream, by rw [List.getElem?_set_ne hsame, hstream], hsilenced⟩
  | drop hdrop hdropped =>
      rename_i m gone
      by_cases hsame : m = n
      · subst hsame
        obtain rfl := Option.some.inj (hdrop.symm.trans hstream)
        exact ⟨_, List.getElem?_set_self hlt, hsilenced.drop⟩
      · exact ⟨stream, by rw [List.getElem?_set_ne hsame, hstream], hsilenced⟩
  | retire => exact ⟨stream, hstream, hsilenced⟩

theorem Silenced.follows {told : Bool} {since : List (LeaseEntry T)} {n : Nat}
    (hsystem : system.Sound workerId) (hretired : system.lease.retired = true)
    (h : ∃ stream, system.streams[n]? = some stream ∧
      Silenced workerId told since stream)
    (hafter : (machine workerId).Follows system after) :
    ∃ stream, after.streams[n]? = some stream ∧
      Silenced workerId told since stream := by
  have hall := hafter.invariant (fun system : LeaseSystem T =>
    system.Sound workerId ∧ system.lease.retired = true ∧
      ∃ stream, system.streams[n]? = some stream ∧
        Silenced workerId told since stream)
    (fun hold hevent => ⟨hold.1.step hevent, step_retired hevent hold.2.1,
      Silenced.step hold.1.workerId hold.2.1 hold.2.2 hevent⟩)
    ⟨hsystem, hretired, h⟩
  exact hall.2.2

end LeaseSystem

namespace LeaseStream

variable {T : Type} {lease : Lease} {stream : LeaseStream T}

/-- A task stream begins one attempt if its first poll found the lease active,
and no attempt otherwise. -/
theorem Begun.attempts_eq (h : stream.Begun) : attempts stream.log =
    if stream.retireOnDrop && opensActive stream.log then 1 else 0 := by
  cases htask : stream.retireOnDrop with
  | false => simp [(h.idle (h.heartbeat htask)).1]
  | true =>
      by_cases hfresh : stream.registration = .notBegun
      · simp [(h.idle hfresh).1, (h.fresh htask hfresh).1]
      · obtain ⟨hcount, rest, hlog⟩ := h.started hfresh
        rw [hcount, hlog]
        rfl

theorem Begun.opened (h : stream.Begun) (hbegun : attempts stream.log = 1) :
    ∃ rest, stream.log = .called true :: .begun :: rest := by
  apply (h.started ?_).2
  intro hfresh
  simp [(h.idle hfresh).1] at hbegun

/-- Every attempt is settled at most once, and once the stream is dropped. -/
theorem Begun.settlements_length (h : stream.Begun) :
    (settlements stream.log).length ≤ attempts stream.log ∧
      (stream.dropped = true →
        (settlements stream.log).length = attempts stream.log) := by
  cases hregistration : stream.registration with
  | notBegun => simp [h.idle hregistration]
  | pending =>
      rw [h.pending hregistration, (h.started (by simp [hregistration])).1]
      cases stream.dropped <;> simp
  | settled =>
      simp [h.settled hregistration, (h.started (by simp [hregistration])).1]

theorem Kept.guarded_iff (h : stream.Kept lease)
    (htask : stream.retireOnDrop = true) :
    stream.guarded = decide (firstItem stream.log = some true) := by
  rw [h.armed.item htask]
  by_cases hsettled : stream.registration = .settled
  · simp [hsettled]
  · rw [h.armed.unarmed hsettled, if_neg hsettled]
    cases stream.ended <;> rfl

theorem Kept.settlements_eq (h : stream.Kept lease) :
    ∀ succeeded ∈ settlements stream.log,
      succeeded = decide (firstItem stream.log = some true) := by
  intro succeeded hmem
  have htask : stream.retireOnDrop = true := by
    rw [← Bool.not_eq_false]
    intro hheartbeat
    simp [(h.begun.idle (h.begun.heartbeat hheartbeat)).2] at hmem
  rw [← h.guarded_iff htask]
  cases hregistration : stream.registration with
  | notBegun => simp [(h.begun.idle hregistration).2] at hmem
  | pending =>
      rw [h.armed.unarmed (by simp [hregistration])]
      rw [h.begun.pending hregistration] at hmem
      cases hdropped : stream.dropped <;> simp_all
  | settled => simpa [h.begun.settled hregistration] using hmem

theorem drop_heartbeat (h : stream.Kept lease)
    (hheartbeat : stream.retireOnDrop = false) :
    (stream.drop lease).1 = lease := by
  have hfresh := h.begun.heartbeat hheartbeat
  have hunarmed := h.armed.unarmed (by simp [hfresh])
  simp [drop, hfresh, hunarmed]

end LeaseStream

namespace LeaseSystem

variable {T : Type} {workerId : String} {system after : LeaseSystem T}

/-- The protocol of the lease streams of one name, in every state their polls,
drops and retirements reach. -/
theorem lease_stream_protocol
    (hsystem : (machine workerId).Reachable system) {n : Nat}
    {stream : LeaseStream T} (hstream : system.streams[n]? = some stream) :
    -- A task stream begins one attempt, on its first poll, if the lease is
    -- active then; a heartbeat stream begins none.
    attempts stream.log =
        (if stream.retireOnDrop && opensActive stream.log then 1 else 0) ∧
      (attempts stream.log = 1 →
        ∃ rest, stream.log = .called true :: .begun :: rest) ∧
    -- The attempt is settled once by the time the stream is dropped, as a
    -- success if and only if the first item is `Ok`.
      (settlements stream.log).length ≤ attempts stream.log ∧
      (stream.dropped = true →
        (settlements stream.log).length = attempts stream.log) ∧
      (∀ succeeded ∈ settlements stream.log,
        succeeded = decide (firstItem stream.log = some true)) ∧
    -- The lease counts what its streams settled and what they still hold.
      system.lease.settledRegistrations =
        (system.streams.map fun stream =>
          (settlements stream.log).length).sum ∧
      system.lease.pendingRegistrations =
        (system.streams.map LeaseStream.waiting).sum ∧
    -- From a retirement on the stream inside is not polled, and the answers
    -- are one `WorkerRetired` and then the end.
      (system.lease.retired = true → ∀ later,
        (machine workerId).Follows system later →
        ∃ entries polled, later.streams[n]? = some polled ∧
          polled.log = stream.log ++ entries ∧
          LeaseEntry.polled ∉ entries ∧
          answers entries =
            retirementAnswers workerId stream.ended (calls entries)) ∧
      (stream.ended = true → ∃ before rest, stream.log = before ++
        .called false :: .returned (.item (.error (.workerRetired workerId)))
          :: rest ∧ LeaseEntry.called false ∉ before ∧
            ∀ entry ∈ rest, entry.quiet = true) ∧
      (stream.ended = false → LeaseEntry.called false ∉ stream.log) ∧
    -- An unknown claim outcome retires the lease.
      (∀ poll, LeaseEntry.returned poll ∈ stream.log →
        poll.outcomeUnknown = true → system.lease.retired = true) ∧
    -- Dropping a task stream retires the lease if and only if its first item
    -- is `Ok`, and dropping a heartbeat stream leaves the lease alone.
      (∀ after, system.step (.drop n) = some after →
        (stream.retireOnDrop = true → after.lease.retired =
          (system.lease.retired ||
            decide (firstItem stream.log = some true))) ∧
        (stream.retireOnDrop = false → after.lease = system.lease)) := by
  have hsound := reachable_sound hsystem
  have hkept := hsound.kept stream (List.mem_of_getElem? hstream)
  refine ⟨hkept.begun.attempts_eq, hkept.begun.opened,
    hkept.begun.settlements_length.1, hkept.begun.settlements_length.2,
    hkept.settlements_eq, hsound.settled, hsound.pending, ?_, ?_,
    hkept.told.active, hkept.told.unknown, ?_⟩
  · intro hretired later hlater
    have hnow : Silenced workerId stream.ended stream.log stream :=
      ⟨[], by simp, by simp, by simp [answers, calls, retirementAnswers],
        by simp [calls]⟩
    obtain ⟨polled, hpolled, entries, hlog, hinner, hanswers, -⟩ :=
      Silenced.follows hsound hretired ⟨stream, hstream, hnow⟩ hlater
    exact ⟨entries, polled, hpolled, hlog, hinner, hanswers⟩
  · rw [← hsound.workerId]
    exact hkept.told.ended
  · intro after hafter
    simp only [step] at hafter
    obtain ⟨dropped, hdropped, -, rfl⟩ := update_eq_some hafter
    obtain rfl := Option.some.inj (hdropped.symm.trans hstream)
    refine ⟨?_, LeaseStream.drop_heartbeat hkept⟩
    intro htask
    rw [← hkept.guarded_iff htask]
    exact LeaseStream.drop_lease.retired

/-- A task stream whose registration came with its second poll. -/
theorem lease_stream_protocol_registered :
    ∃ (system : LeaseSystem Unit) (stream : LeaseStream Unit),
      (machine "worker").Reachable system ∧
      system.streams[0]? = some stream ∧ attempts stream.log = 1 ∧
      system.lease.retired = false ∧
      ∀ after, system.step (.drop 0) = some after →
        after.lease.retired = true := by
  let stream : LeaseStream Unit := ⟨true, .settled, true, false, false,
    [.called true, .begun, .polled, .returned .pending, .called true, .polled,
      .settled true, .returned (.item (.ok ()))]⟩
  let system : LeaseSystem Unit := ⟨⟨"worker", false, true, 1, 0⟩, [stream]⟩
  have hreachable : (machine "worker").Reachable system :=
    ⟨_, rfl, Machine.follows_of_run
      [.openStream true, .poll 0 .pending false,
        .poll 0 (.item (.ok ())) false] rfl⟩
  refine ⟨system, stream, hreachable, rfl, rfl, rfl, ?_⟩
  intro after hafter
  have hdropped := (lease_stream_protocol hreachable rfl).2.2.2.2.2.2.2.2.2.2.2
    after hafter
  exact hdropped.1 rfl

end LeaseSystem

end Fetcher

end ApalisPostgres
