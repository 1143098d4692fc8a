/-
What one step of the process can do.  Every guard of the step functions is
read off once here; the invariants of the calls are proved over these cases.
-/
import ApalisPostgres.Middleware

namespace ApalisPostgres

open RowStore

namespace ServiceCall

/-- Why a call is refused before its handler.  Only a refusal that may leave
the claim owned and not started keeps the obligation. -/
inductive Refuses (memory : Memory) (call : ServiceCall) : Error → Prop where
  | noWorker (hstage : call.stage = .created)
      (hworker : call.request.worker = none) :
      Refuses memory call (.missingField "worker_context")
  | noTask {worker : String} (hstage : call.stage = .created)
      (hworker : call.request.worker = some worker)
      (htask : call.request.parts.taskId = none) :
      Refuses memory call (.missingField "task_id")
  | acknowledged (hstage : call.stage = .created ∧
        call.request.preclaimed = true ∨ ∃ restart,
          call.stage = .checking restart)
      (hdone : memory.isAcknowledged call.request.record = true) :
      Refuses memory call call.alreadyAcknowledged
  | unlocked {worker : String} (hstage : call.stage = .created)
      (hpreclaimed : call.request.preclaimed = false) :
      Refuses memory call (.workerRetired worker)
  | retired {restart : Bool} {worker : String}
      (hstage : call.stage = .activating restart) :
      Refuses memory call (.workerRetired worker)
  | incomplete {restart : Bool} {error : Error}
      (hstage : call.stage = .activating restart) :
      Refuses memory call error
  | notStarted {claim : StartClaim} {reply : Except Error Bool} {error : Error}
      (hstage : call.stage = .starting claim (some reply))
      (hreply : reply ≠ .ok true) : Refuses memory call error
  | notLocked {taskId worker : String} {error : Error}
      (hstage : call.stage = .locking taskId worker (some (.error error))) :
      Refuses memory call error

/-- The steps of a call that waits for nobody. -/
inductive Advances (n fresh : Nat) (memory : Memory) (call : ServiceCall) :
    Memory → ServiceCall → Prop where
  | refuses {error : Error} {guard : LeaseObligation}
      (hrefuses : Refuses memory call error)
      (hguard : guard = call.guard ∨ guard = call.guard.disarm) :
      Advances n fresh memory call memory
        ({ call with guard := guard }.refuse error)
  | enters {worker : String} (hstage : call.stage = .created)
      (hworker : call.request.worker = some worker)
      (hpreclaimed : call.request.preclaimed = true)
      (hdone : memory.isAcknowledged call.request.record = false) :
      Advances n fresh memory call memory { call with stage := .entering }
  | locks {worker taskId : String} (hstage : call.stage = .created)
      (hworker : call.request.worker = some worker)
      (htask : call.request.parts.taskId = some taskId)
      (hpreclaimed : call.request.preclaimed = false) :
      Advances n fresh memory call memory { call with
        guard := { call.guard with armed := call.lease }
        stage := .locking taskId worker none }
  | reads (hstage : call.stage = .entering) :
      Advances n fresh memory call memory { call with
        stage := .checking (memory.hasStarted call.request.record) }
  | passes {restart : Bool} (hstage : call.stage = .checking restart)
      (hdone : memory.isAcknowledged call.request.record = false) :
      Advances n fresh memory call memory { call with
        stage := .attempting restart }
  | attempts {restart : Bool} (hstage : call.stage = .attempting restart) :
      Advances n fresh memory call
        (memory.markStartAttempted call.request.record)
        { call with stage := .activating restart }
  | issues {restart : Bool} {claim : StartClaim}
      (hstage : call.stage = .activating restart)
      (hclaim : startClaim call.binding.leaseToken
        (call.request.worker.getD "") restart call.request.parts =
          .ok claim) :
      Advances n fresh memory call memory { call with
        stage := .starting claim none }
  | matched {claim : StartClaim}
      (hstage : call.stage = .starting claim (some (.ok true)))
      (hkind : call.kind = .dispatch) :
      Advances n fresh memory call (memory.markStarted call.request.record)
        { call with stage := .admitted call.request }
  | began {claim : StartClaim}
      (hstage : call.stage = .starting claim (some (.ok true)))
      (hkind : call.kind = .start) :
      Advances n fresh memory call (memory.markStarted call.request.record)
        { call with guard := call.guard.disarm, stage := .settling .started }
  | relocks {taskId worker : String} {task : Task} {record : ClaimRecord}
      (hstage : call.stage = .locking taskId worker (some (.ok task)))
      (hfresh : memory.records fresh = none) :
      Advances n fresh memory call (memory.insert fresh record) { call with
        guard := { call.guard with claim := some fresh }
        stage := .admitted (call.relocked fresh task) }
  | calls {passed : Request} (hstage : call.stage = .admitted passed) :
      Advances n fresh memory call
        { memory with handled := memory.handled ++ [(n, passed)] }
        { call with stage := .handling }
  | counts {error : Error} (hstage : call.stage = .refusing error) :
      Advances n fresh memory call
        { memory with
          counted := memory.counted ++ [(n, call.request.counter)] }
        { call with stage := .settling (.refused error) }
  | settles {result : CallResult} (hstage : call.stage = .settling result) :
      Advances n fresh memory call memory { call with
        guard := call.guard.settle memory
        stage := if (call.guard.settle memory).armed.isSome
          then .retiring result else .finished result }
  | retires {result : CallResult} (hstage : call.stage = .retiring result) :
      Advances n fresh memory call
        (call.guard.armed.elim memory memory.retire)
        { call with guard := call.guard.disarm, stage := .finished result }

variable {n fresh : Nat} {memory after : Memory} {call next : ServiceCall}

theorem Advances.kept {error : Error} (h : Refuses memory call error) :
    Advances n fresh memory call memory (call.refuse error) :=
  .refuses h (Or.inl rfl)

theorem Advances.unowed {error : Error} (h : Refuses memory call error) :
    Advances n fresh memory call memory (call.refuseUnowed error) :=
  .refuses h (Or.inr rfl)

theorem enter_advances (hstage : call.stage = .created) :
    Advances n fresh memory call memory (call.enter memory) := by
  unfold enter
  cases hworker : call.request.worker with
  | none => exact .kept (.noWorker hstage hworker)
  | some worker =>
      cases htask : call.request.parts.taskId with
      | none => exact .kept (.noTask hstage hworker htask)
      | some taskId =>
          dsimp only
          split
          · rename_i hpreclaimed
            split
            · rename_i hdone
              exact .unowed (.acknowledged (Or.inl ⟨hstage, hpreclaimed⟩)
                hdone)
            · rename_i hdone
              exact .enters hstage hworker hpreclaimed
                (Bool.eq_false_iff.mpr hdone)
          · rename_i hpreclaimed
            have hfree := Bool.eq_false_iff.mpr hpreclaimed
            split
            · exact .kept (.unlocked hstage hfree)
            · exact .locks hstage hworker htask hfree

theorem activate_advances {restart : Bool}
    (hstage : call.stage = .activating restart) :
    Advances n fresh memory call memory (call.activate memory restart) := by
  unfold activate
  dsimp only
  split
  · exact .unowed (.retired hstage)
  · split
    · exact .kept (.incomplete hstage)
    · rename_i claim hclaim
      exact .issues hstage hclaim

theorem started_advances {claim : StartClaim} {reply : Except Error Bool}
    (hstage : call.stage = .starting claim (some reply)) :
    Advances n fresh memory call (call.started memory claim reply).1
      (call.started memory claim reply).2 := by
  match reply with
  | .error error => exact .kept (.notStarted hstage nofun)
  | .ok false => exact .unowed (.notStarted hstage nofun)
  | .ok true =>
      dsimp only [started]
      split
      · rename_i hkind
        exact .matched hstage hkind
      · rename_i hkind
        exact .began hstage hkind

theorem locked_advances {taskId worker : String} {reply : Except Error Task}
    (hstage : call.stage = .locking taskId worker (some reply))
    (hfresh : memory.records fresh = none) :
    Advances n fresh memory call (call.locked memory fresh reply).1
      (call.locked memory fresh reply).2 := by
  unfold locked
  split
  · exact .kept (.notLocked hstage)
  · exact .unowed (.notLocked hstage)
  · exact .relocks hstage hfresh

/-- Everything a step of a call can do. -/
theorem advance_cases (h : call.advance n fresh memory = some (after, next)) :
    Advances n fresh memory call after next := by
  unfold advance at h
  cases hstage : call.stage with
  | created =>
      simp only [hstage, Option.some.injEq, Prod.mk.injEq] at h
      obtain ⟨rfl, rfl⟩ := h
      exact enter_advances hstage
  | entering =>
      simp only [hstage, Option.some.injEq, Prod.mk.injEq] at h
      obtain ⟨rfl, rfl⟩ := h
      exact .reads hstage
  | checking restart =>
      simp only [hstage] at h
      split at h
      · rename_i hdone
        simp only [Option.some.injEq, Prod.mk.injEq] at h
        obtain ⟨rfl, rfl⟩ := h
        exact .unowed (.acknowledged (Or.inr ⟨restart, hstage⟩) hdone)
      · rename_i hdone
        simp only [Option.some.injEq, Prod.mk.injEq] at h
        obtain ⟨rfl, rfl⟩ := h
        exact .passes hstage (Bool.eq_false_iff.mpr hdone)
  | attempting restart =>
      simp only [hstage, Option.some.injEq, Prod.mk.injEq] at h
      obtain ⟨rfl, rfl⟩ := h
      exact .attempts hstage
  | activating restart =>
      simp only [hstage, Option.some.injEq, Prod.mk.injEq] at h
      obtain ⟨rfl, rfl⟩ := h
      exact activate_advances hstage
  | starting claim reply =>
      cases reply with
      | none => simp [hstage] at h
      | some reply =>
          simp only [hstage, Option.some.injEq] at h
          have hadvances : Advances n fresh memory call _ _ :=
            started_advances hstage
          rw [h] at hadvances
          exact hadvances
  | locking taskId worker reply =>
      cases reply with
      | none => simp [hstage] at h
      | some reply =>
          simp only [hstage] at h
          split at h
          · rename_i hfresh
            have hadvances : Advances n fresh memory call _ _ :=
              locked_advances hstage (Option.isNone_iff_eq_none.mp hfresh)
            rw [Option.some.inj h] at hadvances
            exact hadvances
          · cases h
  | admitted passed =>
      simp only [hstage, Option.some.injEq, Prod.mk.injEq] at h
      obtain ⟨rfl, rfl⟩ := h
      exact .calls hstage
  | handling => simp [hstage] at h
  | refusing error =>
      simp only [hstage, Option.some.injEq, Prod.mk.injEq] at h
      obtain ⟨rfl, rfl⟩ := h
      exact .counts hstage
  | settling result =>
      simp only [hstage, Option.some.injEq, Prod.mk.injEq] at h
      obtain ⟨rfl, rfl⟩ := h
      exact .settles hstage
  | retiring result =>
      simp only [hstage, Option.some.injEq, Prod.mk.injEq] at h
      obtain ⟨rfl, rfl⟩ := h
      exact .retires hstage
  | finished result => simp [hstage] at h

end ServiceCall

namespace AckCall

/-- The steps of an acknowledgement that waits for nobody. -/
inductive Advances (k : Nat) (memory : Memory) (ack : AckCall) :
    Memory → AckCall → Prop where
  | refused (hstage : ack.stage = .created)
      (hrefused : memory.startRefused ack.record = true) :
      Advances k memory ack memory { ack with
        guard := ack.guard.disarm
        stage := .settling (.returned (.ok ())) }
  | waits (hstage : ack.stage = .created)
      (hrefused : memory.startRefused ack.record = false) :
      Advances k memory ack memory { ack with stage := .waiting }
  | bare (hstage : ack.stage = .waiting) (hrecord : ack.record = none) :
      Advances k memory ack memory { ack with stage := .locked }
  | locks {record : Nat} (hstage : ack.stage = .waiting)
      (hrecord : ack.record = some record)
      (hfree : memory.serial record = none) :
      Advances k memory ack (memory.setSerial record (some k))
        { ack with stage := .locked }
  | repeats (hstage : ack.stage = .locked)
      (hdone : memory.isAcknowledged ack.record = true) :
      Advances k memory ack memory { ack with
        guard := ack.guard.disarm
        stage := .releasing (.returned (.error ack.repeated)) }
  | incomplete {error : Error} (hstage : ack.stage = .locked)
      (hdone : memory.isAcknowledged ack.record = false)
      (hupdate : ackUpdate ack.binding.leaseToken ack.res ack.parts =
        .error error) :
      Advances k memory ack memory { ack with
        stage := .releasing (.returned (.error error)) }
  | issues {update : AckTaskUpdate} (hstage : ack.stage = .locked)
      (hdone : memory.isAcknowledged ack.record = false)
      (hupdate : ackUpdate ack.binding.leaseToken ack.res ack.parts =
        .ok update) :
      Advances k memory ack memory { ack with
        stage := .issuing none
        issued := true }
  | marks (hstage : ack.stage = .issuing (some (.ok ()))) :
      Advances k memory ack (memory.markAcknowledged ack.record) { ack with
        guard := ack.guard.disarm
        stage := .releasing (.returned (.ok ())) }
  | fails {error : Error}
      (hstage : ack.stage = .issuing (some (.error error))) :
      Advances k memory ack memory { ack with
        stage := .releasing (.returned (.error error)) }
  | releases {result : AckResult} {serial : Nat → Option Nat}
      (hstage : ack.stage = .releasing result) :
      Advances k memory ack { memory with serial := serial } { ack with
        stage := .settling result }
  | settles {result : AckResult} (hstage : ack.stage = .settling result) :
      Advances k memory ack memory { ack with
        guard := ack.guard.settle memory
        stage := if (ack.guard.settle memory).armed.isSome
          then .retiring result else .finished result }
  | retires {result : AckResult} (hstage : ack.stage = .retiring result) :
      Advances k memory ack (ack.guard.armed.elim memory memory.retire)
        { ack with guard := ack.guard.disarm, stage := .finished result }

variable {k : Nat} {memory after : Memory} {ack next : AckCall}

theorem checkMarker_advances (hstage : ack.stage = .locked) :
    Advances k memory ack memory (ack.checkMarker memory) := by
  unfold checkMarker
  split
  · rename_i hdone
    exact .repeats hstage hdone
  · rename_i hdone
    have hopen := Bool.eq_false_iff.mpr hdone
    split
    · rename_i error hupdate
      exact .incomplete hstage hopen hupdate
    · rename_i update hupdate
      exact .issues hstage hopen hupdate

/-- Everything a step of an acknowledgement can do. -/
theorem advance_cases (h : ack.advance k memory = some (after, next)) :
    Advances k memory ack after next := by
  unfold advance at h
  split at h
  · rename_i hstage
    split at h
    · rename_i hrefused
      cases h
      exact .refused hstage hrefused
    · rename_i hrefused
      cases h
      exact .waits hstage (Bool.eq_false_iff.mpr hrefused)
  · rename_i hstage
    split at h
    · rename_i hrecord
      cases h
      exact .bare hstage hrecord
    · rename_i record hrecord
      split at h
      · rename_i hfree
        cases h
        exact .locks hstage hrecord (Option.isNone_iff_eq_none.mp hfree)
      · cases h
  · rename_i hstage
    cases h
    exact checkMarker_advances hstage
  · cases h
  · rename_i hstage
    cases h
    exact .marks hstage
  · rename_i error hstage
    cases h
    exact .fails hstage
  · rename_i result hstage
    have hreleased : ∃ serial, after = { memory with serial := serial } := by
      simp only [Option.some.injEq, Prod.mk.injEq] at h
      rw [← h.1]
      split
      · exact ⟨memory.serial, rfl⟩
      · split
        · exact ⟨_, rfl⟩
        · exact ⟨memory.serial, rfl⟩
    obtain ⟨serial, rfl⟩ := hreleased
    simp only [Option.some.injEq, Prod.mk.injEq] at h
    obtain ⟨-, rfl⟩ := h
    exact .releases hstage
  · rename_i result hstage
    cases h
    exact .settles hstage
  · rename_i result hstage
    cases h
    exact .retires hstage
  · cases h

end AckCall

namespace Process

variable (rows : TaskConversion)

/-- The events with what they found. -/
inductive Moves (process : Process) : ProcessEvent → Process → Prop where
  | database (invocation : Invocation) :
      Moves process (.database invocation)
        { process with system := process.system.step rows invocation }
  | claimed {record : Nat} {claim : ClaimAttempt}
      (hfree : process.memory.records record = none) :
      Moves process (.claimed record claim) { process with
        memory := process.memory.insert record (.fresh claim) }
  | retired (name : String) :
      Moves process (.retired name)
        { process with memory := process.memory.retire name }
  | dispatch {n : Nat} {binding : Binding} {request : Request}
      (hfree : process.calls n = none)
      (hcarries : process.memory.carries request.parts request.record = true) :
      Moves process (.dispatch n binding request) (process.setCall n
        (ServiceCall.call process.memory binding request))
  | start {n : Nat} {binding : Binding} {parts : Parts} {record : Option Nat}
      {counter : Counter} (hfree : process.calls n = none)
      (hcarries : process.memory.carries parts record = true) :
      Moves process (.start n binding parts record counter)
        (process.setCall n
          (ServiceCall.start process.memory binding parts record counter))
  | advance {n fresh : Nat} {call next : ServiceCall} {memory : Memory}
      (hcall : process.calls n = some call)
      (hadvances : call.Advances n fresh process.memory memory next) :
      Moves process (.advance n fresh)
        ({ process with memory := memory }.setCall n next)
  | statement {n : Nat} {env : Nat → Env} {answer : Answer} {op : Op}
      {call next : ServiceCall} (hcall : process.calls n = some call)
      (hop : call.pending = some op) (hpossible : answer.possible op = true)
      (hreplied : call.replied
        (process.system.transact rows ⟨op, env⟩ answer).system.db
        (process.system.transact rows ⟨op, env⟩ answer).outcome = some next) :
      Moves process (.statement n env answer) ({ process with
        system := (process.system.transact rows ⟨op, env⟩ answer).system
        }.setCall n next)
  | returned {n : Nat} {res : HandlerResult} {call : ServiceCall}
      (hcall : process.calls n = some call)
      (hstage : call.stage = .handling) :
      Moves process (.returned n res) (process.setCall n { call with
        guard := call.guard.disarm
        stage := .settling (.returned res) })
  | cancel {n : Nat} {call next : ServiceCall}
      (hcall : process.calls n = some call)
      (hcancel : call.cancel = some next) :
      Moves process (.cancel n) (process.setCall n next)
  | ack {k : Nat} {binding : Binding} {res : HandlerResult} {parts : Parts}
      {record : Option Nat} (hfree : process.acks k = none)
      (hcarries : process.memory.carries parts record = true) :
      Moves process (.ack k binding res parts record)
        (process.setAck k (AckCall.call binding res parts record none))
  | ackOutcome {k n : Nat} {binding : Binding} {attempt : Nat}
      {message : String} {call : ServiceCall} {res : HandlerResult}
      (hcall : process.calls n = some call)
      (houtcome : outcomeOf call message = some res)
      (hfree : process.acks k = none) :
      Moves process (.ackOutcome k n binding attempt message)
        (process.setAck k (AckCall.call binding res
          { call.request.parts with attempt := attempt } call.request.record
          (some n)))
  | advanceAck {k : Nat} {ack next : AckCall} {memory : Memory}
      (hack : process.acks k = some ack)
      (hadvances : ack.Advances k process.memory memory next) :
      Moves process (.advanceAck k)
        ({ process with memory := memory }.setAck k next)
  | ackStatement {k : Nat} {env : Nat → Env} {answer : Answer} {ack : AckCall}
      {ended : Answered} (hack : process.acks k = some ack)
      (hpending : ack.pending = true)
      (hended : process.system.transact rows ⟨ack.op, env⟩ answer = ended) :
      Moves process (.ackStatement k env answer)
        (setAck { process with
          system := ended.system
          writes := process.writes ++ [⟨k, ack.record, ended.effects⟩] } k
          (ack.replied ended.outcome))
  | cancelAck {k : Nat} {ack next : AckCall}
      (hack : process.acks k = some ack)
      (hcancel : ack.cancel = some next) :
      Moves process (.cancelAck k) (process.setAck k next)

variable {rows} {process after : Process} {event : ProcessEvent}

/-- Everything a step of the process can do. -/
theorem step_cases (h : process.step rows event = some after) :
    process.Moves rows event after := by
  cases event with
  | database invocation =>
      cases h
      exact .database invocation
  | claimed record claim =>
      simp only [step, Option.isNone_iff_eq_none] at h
      split at h
      · rename_i hfree
        cases h
        exact .claimed hfree
      · cases h
  | retired name =>
      cases h
      exact .retired name
  | dispatch n binding request =>
      simp only [step, Bool.and_eq_true, Option.isNone_iff_eq_none] at h
      split at h
      · rename_i hguard
        cases h
        exact .dispatch hguard.1 hguard.2
      · cases h
  | start n binding parts record counter =>
      simp only [step, Bool.and_eq_true, Option.isNone_iff_eq_none] at h
      split at h
      · rename_i hguard
        cases h
        exact .start hguard.1 hguard.2
      · cases h
  | advance n fresh =>
      simp only [step, Option.bind_eq_bind, Option.bind_eq_some_iff] at h
      obtain ⟨call, hcall, ⟨memory, next⟩, hadvance, h⟩ := h
      cases h
      exact .advance hcall (ServiceCall.advance_cases hadvance)
  | statement n env answer =>
      simp only [step, Option.bind_eq_bind, Option.bind_eq_some_iff] at h
      obtain ⟨call, hcall, op, hop, h⟩ := h
      split at h
      · rename_i hpossible
        obtain ⟨next, hreplied, h⟩ := Option.bind_eq_some_iff.mp h
        cases h
        exact .statement hcall hop hpossible hreplied
      · cases h
  | returned n res =>
      simp only [step, Option.bind_eq_bind, Option.bind_eq_some_iff] at h
      obtain ⟨call, hcall, h⟩ := h
      split at h
      · rename_i hstage
        cases h
        exact .returned hcall hstage
      · cases h
  | cancel n =>
      simp only [step, Option.bind_eq_bind, Option.bind_eq_some_iff] at h
      obtain ⟨call, hcall, next, hcancel, h⟩ := h
      cases h
      exact .cancel hcall hcancel
  | ack k binding res parts record =>
      simp only [step, Bool.and_eq_true, Option.isNone_iff_eq_none] at h
      split at h
      · rename_i hguard
        cases h
        exact .ack hguard.1 hguard.2
      · cases h
  | ackOutcome k n binding attempt message =>
      simp only [step, Option.bind_eq_bind, Option.bind_eq_some_iff,
        Option.isNone_iff_eq_none] at h
      obtain ⟨call, hcall, res, houtcome, h⟩ := h
      split at h
      · rename_i hfree
        cases h
        exact .ackOutcome hcall houtcome hfree
      · cases h
  | advanceAck k =>
      simp only [step, Option.bind_eq_bind, Option.bind_eq_some_iff] at h
      obtain ⟨ack, hack, ⟨memory, next⟩, hadvance, h⟩ := h
      cases h
      exact .advanceAck hack (AckCall.advance_cases hadvance)
  | ackStatement k env answer =>
      simp only [step, Option.bind_eq_bind, Option.bind_eq_some_iff] at h
      obtain ⟨ack, hack, h⟩ := h
      split at h
      · rename_i hpending
        cases h
        exact .ackStatement hack hpending rfl
      · cases h
  | cancelAck k =>
      simp only [step, Option.bind_eq_bind, Option.bind_eq_some_iff] at h
      obtain ⟨ack, hack, next, hcancel, h⟩ := h
      cases h
      exact .cancelAck hack hcancel

end Process

/-- The markers of a record are only added to. -/
structure ClaimRecord.Grows (record later : ClaimRecord) : Prop where
  claim : later.claim = record.claim
  done : record.done = true → later.done = true
  started : record.started = true → later.started = true
  startAttempted : record.startAttempted = true → later.startAttempted = true

theorem ClaimRecord.Grows.refl (record : ClaimRecord) : record.Grows record :=
  ⟨rfl, id, id, id⟩

namespace Memory

/-- Records stay, their markers are only added to, and a retired name stays
retired. -/
structure Grows (before after : Memory) : Prop where
  records : ∀ id record, before.records id = some record →
    ∃ later, after.records id = some later ∧ record.Grows later
  retired : ∀ name, before.retired name = true → after.retired name = true

variable {before after : Memory}

theorem Grows.of_records (hrecords : after.records = before.records)
    (hretired : after.retired = before.retired) : Grows before after := by
  refine ⟨?_, fun name hname => hretired ▸ hname⟩
  intro id record hrecord
  exact ⟨record, hrecords ▸ hrecord, .refl record⟩

theorem Grows.refl (memory : Memory) : Grows memory memory :=
  .of_records rfl rfl

theorem grows_mark {change : ClaimRecord → ClaimRecord}
    (hchange : ∀ record : ClaimRecord, record.Grows (change record))
    (memory : Memory) (marked : Option Nat) :
    Grows memory (memory.mark change marked) := by
  refine ⟨?_, fun _ hname => hname⟩
  intro id record hrecord
  by_cases hid : marked = some id
  · exact ⟨change record, by simp [mark, hid, hrecord], hchange record⟩
  · exact ⟨record, by simp [mark, hid, hrecord], .refl record⟩

theorem grows_markAcknowledged (memory : Memory) (marked : Option Nat) :
    Grows memory (memory.markAcknowledged marked) := by
  apply grows_mark
  intro record
  exact ⟨rfl, fun _ => rfl, id, id⟩

theorem grows_markStarted (memory : Memory) (marked : Option Nat) :
    Grows memory (memory.markStarted marked) := by
  apply grows_mark
  intro record
  exact ⟨rfl, id, fun _ => rfl, id⟩

theorem grows_markStartAttempted (memory : Memory) (marked : Option Nat) :
    Grows memory (memory.markStartAttempted marked) := by
  apply grows_mark
  intro record
  exact ⟨rfl, id, id, fun _ => rfl⟩

theorem grows_insert {memory : Memory} {id : Nat} {record : ClaimRecord}
    (hfree : memory.records id = none) :
    Grows memory (memory.insert id record) := by
  refine ⟨?_, fun _ hname => hname⟩
  intro other found hfound
  have hother : other ≠ id := by
    intro heq
    rw [heq, hfree] at hfound
    cases hfound
  exact ⟨found, by simp [insert, hother, hfound], .refl found⟩

theorem grows_retire (memory : Memory) (name : String) :
    Grows memory (memory.retire name) := by
  refine ⟨fun id record hrecord => ⟨record, hrecord, .refl record⟩, ?_⟩
  intro other hother
  simp [retire, hother]

theorem grows_elim_retire (memory : Memory) (armed : Option String) :
    Grows memory (armed.elim memory memory.retire) := by
  cases armed with
  | none => exact .refl memory
  | some name => exact grows_retire memory name

/-- A marker of a record, if there is one. -/
theorem any_records_iff {memory : Memory} {record : Option Nat}
    {marker : ClaimRecord → Bool} :
    (record.bind memory.records).any marker = true ↔
      ∃ id found, record = some id ∧ memory.records id = some found ∧
        marker found = true := by
  cases record with
  | none => simp
  | some id =>
      cases hfound : memory.records id with
      | none => simp [hfound]
      | some found => simp [hfound]

theorem Grows.any (h : Grows before after) {record : Option Nat}
    {marker : ClaimRecord → Bool}
    (hmarker : ∀ found later, ClaimRecord.Grows found later →
      marker found = true → marker later = true)
    (hany : (record.bind before.records).any marker = true) :
    (record.bind after.records).any marker = true := by
  obtain ⟨id, found, rfl, hfound, hset⟩ := any_records_iff.mp hany
  obtain ⟨later, hlater, hgrows⟩ := h.records id found hfound
  exact any_records_iff.mpr
    ⟨id, later, rfl, hlater, hmarker found later hgrows hset⟩

theorem Grows.isAcknowledged (h : Grows before after) {record : Option Nat}
    (hdone : before.isAcknowledged record = true) :
    after.isAcknowledged record = true :=
  h.any (fun _ _ hgrows => hgrows.done) hdone

theorem Grows.startAttempted (h : Grows before after) {record : Option Nat}
    (hattempted : before.startAttempted record = true) :
    after.startAttempted record = true :=
  h.any (fun _ _ hgrows => hgrows.startAttempted) hattempted

end Memory

theorem ServiceCall.Advances.grows {n fresh : Nat} {memory after : Memory}
    {call next : ServiceCall}
    (h : call.Advances n fresh memory after next) : memory.Grows after := by
  cases h with
  | attempts _ => exact Memory.grows_markStartAttempted _ _
  | matched _ _ => exact Memory.grows_markStarted _ _
  | began _ _ => exact Memory.grows_markStarted _ _
  | relocks _ hfresh => exact Memory.grows_insert hfresh
  | retires _ => exact Memory.grows_elim_retire _ _
  | _ => exact .of_records rfl rfl

theorem AckCall.Advances.grows {k : Nat} {memory after : Memory}
    {ack next : AckCall} (h : ack.Advances k memory after next) :
    memory.Grows after := by
  cases h with
  | marks _ => exact Memory.grows_markAcknowledged _ _
  | retires _ => exact Memory.grows_elim_retire _ _
  | _ => exact .of_records rfl rfl

/-- A call keeps its kind, its storage and its request. -/
structure ServiceCall.SameCall (call next : ServiceCall) : Prop where
  kind : next.kind = call.kind
  binding : next.binding = call.binding
  request : next.request = call.request

theorem ServiceCall.Advances.same {n fresh : Nat} {memory after : Memory}
    {call next : ServiceCall}
    (h : call.Advances n fresh memory after next) : call.SameCall next := by
  cases h with
  | _ => exact ⟨rfl, rfl, rfl⟩

theorem ServiceCall.replied_same {call next : ServiceCall} {db : Db}
    {outcome : Except Error Outcome}
    (h : call.replied db outcome = some next) : call.SameCall next := by
  unfold replied at h
  dsimp only at h
  split at h
  · split at h <;> cases h <;> exact ⟨rfl, rfl, rfl⟩
  · split at h <;> cases h <;> exact ⟨rfl, rfl, rfl⟩
  · cases h
    exact ⟨rfl, rfl, rfl⟩

theorem ServiceCall.cancel_same {call next : ServiceCall}
    (h : call.cancel = some next) : call.SameCall next := by
  unfold cancel at h
  split at h
  · cases h
    exact ⟨rfl, rfl, rfl⟩
  · cases h
    exact ⟨rfl, rfl, rfl⟩
  · split at h <;> cases h
    exact ⟨rfl, rfl, rfl⟩
  · cases h
    exact ⟨rfl, rfl, rfl⟩
  · cases h
    exact ⟨rfl, rfl, rfl⟩
  · cases h

/-- An acknowledgement keeps what it was called with. -/
structure AckCall.SameAck (ack next : AckCall) : Prop where
  binding : next.binding = ack.binding
  res : next.res = ack.res
  parts : next.parts = ack.parts
  record : next.record = ack.record
  outcomeOf : next.outcomeOf = ack.outcomeOf

theorem AckCall.Advances.same {k : Nat} {memory after : Memory}
    {ack next : AckCall} (h : ack.Advances k memory after next) :
    ack.SameAck next := by
  cases h with
  | _ => exact ⟨rfl, rfl, rfl, rfl, rfl⟩

theorem AckCall.replied_same {ack : AckCall}
    {outcome : Except Error Outcome} : ack.SameAck (ack.replied outcome) := by
  unfold replied
  split <;> exact ⟨rfl, rfl, rfl, rfl, rfl⟩

theorem AckCall.cancel_same {ack next : AckCall}
    (h : ack.cancel = some next) : ack.SameAck next := by
  unfold cancel at h
  split at h <;> cases h <;> exact ⟨rfl, rfl, rfl, rfl, rfl⟩

namespace Process

variable {rows : TaskConversion} {process after : Process}
  {event : ProcessEvent}

theorem Moves.grows (h : process.Moves rows event after) :
    process.memory.Grows after.memory := by
  cases h with
  | claimed hfree => exact Memory.grows_insert hfree
  | retired name => exact Memory.grows_retire _ name
  | advance _ hadvances => exact hadvances.grows
  | advanceAck _ hadvances => exact hadvances.grows
  | _ => exact .refl process.memory

@[simp] theorem setCall_calls (n m : Nat) (call : ServiceCall) :
    (process.setCall n call).calls m =
      if m = n then some call else process.calls m := rfl

@[simp] theorem setCall_acks (n : Nat) (call : ServiceCall) :
    (process.setCall n call).acks = process.acks := rfl

@[simp] theorem setAck_acks (k m : Nat) (ack : AckCall) :
    (process.setAck k ack).acks m =
      if m = k then some ack else process.acks m := rfl

@[simp] theorem setAck_calls (k : Nat) (ack : AckCall) :
    (process.setAck k ack).calls = process.calls := rfl

/-- The rule for what is known of every call: it outlives what the others do
to the memory, holds of a new call, and is kept by its own steps. -/
theorem Moves.forall_calls {P : Nat → Memory → ServiceCall → Prop}
    (hmoves : process.Moves rows event after)
    (hgrows : ∀ {n memory later call}, Memory.Grows memory later →
      P n memory call → P n later call)
    (hdispatch : ∀ {n binding request}, event = .dispatch n binding request →
      process.memory.carries request.parts request.record = true →
      process.calls n = none →
      P n process.memory (.call process.memory binding request))
    (hstart : ∀ {n binding parts record counter},
      event = .start n binding parts record counter →
      process.memory.carries parts record = true → process.calls n = none →
      P n process.memory
        (.start process.memory binding parts record counter))
    (hadvances : ∀ {n fresh memory call next}, P n process.memory call →
      ServiceCall.Advances n fresh process.memory call memory next →
      P n memory next)
    (hreplied : ∀ {n db outcome call next}, P n process.memory call →
      ServiceCall.replied call db outcome = some next →
      P n process.memory next)
    (hreturned : ∀ {n res call}, P n process.memory call →
      call.stage = .handling → P n process.memory { call with
        guard := call.guard.disarm
        stage := .settling (.returned res) })
    (hcancel : ∀ {n call next}, P n process.memory call →
      call.cancel = some next → P n process.memory next)
    (h : ∀ n call, process.calls n = some call → P n process.memory call) :
    ∀ n call, after.calls n = some call → P n after.memory call := by
  have hset : ∀ {other : Process} {n next},
      Memory.Grows process.memory other.memory →
      other.calls = process.calls → P n other.memory next →
      ∀ m call, (other.setCall n next).calls m = some call →
        P m other.memory call := by
    intro other n next hother hcalls hnext m call hcall
    rw [setCall_calls, hcalls] at hcall
    split at hcall
    · rename_i hself
      cases hcall
      exact hself ▸ hnext
    · exact hgrows hother (h m call hcall)
  have hsame := Memory.Grows.refl process.memory
  have hkept := hmoves.grows
  cases hmoves with
  | dispatch hfree hcarries =>
      exact hset hsame rfl (hdispatch rfl hcarries hfree)
  | start hfree hcarries =>
      exact hset hsame rfl (hstart rfl hcarries hfree)
  | advance hcall hadvance =>
      exact hset hadvance.grows rfl (hadvances (h _ _ hcall) hadvance)
  | statement hcall _ _ hreply =>
      exact hset hsame rfl (hreplied (h _ _ hcall) hreply)
  | returned hcall hstage =>
      exact hset hsame rfl (hreturned (h _ _ hcall) hstage)
  | cancel hcall hdropped =>
      exact hset hsame rfl (hcancel (h _ _ hcall) hdropped)
  | _ =>
      intro m call hcall
      exact hgrows hkept (h m call hcall)

/-- A call that is finished stays as it is. -/
theorem Moves.finished (hmoves : process.Moves rows event after) {n : Nat}
    {call : ServiceCall} {result : CallResult}
    (hcall : process.calls n = some call)
    (hstage : call.stage = .finished result) :
    ∃ later, after.calls n = some later ∧ call.SameCall later ∧
      later.stage = .finished result := by
  have hset : ∀ {other : Process} {m found next},
      other.calls = process.calls → process.calls m = some found →
      (found.stage = .finished result → found.SameCall next ∧
        next.stage = .finished result) →
      ∃ later, (other.setCall m next).calls n = some later ∧
        call.SameCall later ∧ later.stage = .finished result := by
    intro other m found next hcalls hfound hnext
    rw [setCall_calls, hcalls]
    split
    · rename_i hself
      rw [hself, hfound] at hcall
      cases hcall
      exact ⟨next, rfl, hnext hstage⟩
    · exact ⟨call, hcall, ⟨rfl, rfl, rfl⟩, hstage⟩
  have hfree : ∀ {m next}, process.calls m = none →
      ∃ later, (process.setCall m next).calls n = some later ∧
        call.SameCall later ∧ later.stage = .finished result := by
    intro m next hnone
    rw [setCall_calls]
    split
    · rename_i hself
      rw [hself, hnone] at hcall
      cases hcall
    · exact ⟨call, hcall, ⟨rfl, rfl, rfl⟩, hstage⟩
  cases hmoves with
  | dispatch hnone _ => exact hfree hnone
  | start hnone _ => exact hfree hnone
  | @advance _ _ found next _ hfound hadvance =>
      refine hset rfl hfound ?_
      intro hdone
      cases hadvance with
      | refuses hrefuses _ =>
          cases hrefuses <;> simp_all
      | _ => simp_all
  | @statement _ _ _ _ found next hfound _ _ hreply =>
      refine hset rfl hfound ?_
      intro hdone
      simp only [ServiceCall.replied, hdone, Option.some.injEq] at hreply
      subst hreply
      exact ⟨⟨rfl, rfl, rfl⟩, rfl⟩
  | returned hfound hhandling =>
      refine hset rfl hfound ?_
      intro hdone
      rw [hhandling] at hdone
      cases hdone
  | @cancel _ found next hfound hdropped =>
      refine hset rfl hfound ?_
      intro hdone
      simp [ServiceCall.cancel, hdone] at hdropped
  | _ => exact ⟨call, hcall, ⟨rfl, rfl, rfl⟩, hstage⟩

/-- The same rule for the acknowledgements. -/
theorem Moves.forall_acks {P : Nat → Memory → AckCall → Prop}
    (hmoves : process.Moves rows event after)
    (hgrows : ∀ {k memory later ack}, Memory.Grows memory later →
      P k memory ack → P k later ack)
    (hack : ∀ k binding res parts record,
      process.memory.carries parts record = true →
      P k process.memory (.call binding res parts record none))
    (houtcome : ∀ {n call message res} k binding attempt,
      process.calls n = some call → outcomeOf call message = some res →
      P k process.memory (.call binding res
        { call.request.parts with attempt := attempt } call.request.record
        (some n)))
    (hadvances : ∀ {k memory ack next}, event = .advanceAck k →
      process.acks k = some ack → P k process.memory ack →
      AckCall.Advances k process.memory ack memory next → P k memory next)
    (hreplied : ∀ {k ack outcome}, P k process.memory ack →
      ack.pending = true → P k process.memory (ack.replied outcome))
    (hcancel : ∀ {k ack next}, P k process.memory ack →
      ack.cancel = some next → P k process.memory next)
    (h : ∀ k ack, process.acks k = some ack → P k process.memory ack) :
    ∀ k ack, after.acks k = some ack → P k after.memory ack := by
  have hset : ∀ {other : Process} {k next},
      Memory.Grows process.memory other.memory →
      other.acks = process.acks → P k other.memory next →
      ∀ m ack, (other.setAck k next).acks m = some ack →
        P m other.memory ack := by
    intro other k next hother hacks hnext m ack hfound
    rw [setAck_acks, hacks] at hfound
    split at hfound
    · rename_i hself
      cases hfound
      exact hself ▸ hnext
    · exact hgrows hother (h m ack hfound)
  have hsame := Memory.Grows.refl process.memory
  have hkept := hmoves.grows
  cases hmoves with
  | ack _ hcarries => exact hset hsame rfl (hack _ _ _ _ _ hcarries)
  | ackOutcome hcall hres _ =>
      exact hset hsame rfl (houtcome _ _ _ hcall hres)
  | advanceAck hfound hadvance =>
      exact hset hadvance.grows rfl
        (hadvances rfl hfound (h _ _ hfound) hadvance)
  | ackStatement hfound hpending _ =>
      refine hset ?_ rfl (hreplied (h _ _ hfound) hpending)
      exact hsame
  | cancelAck hfound hdropped =>
      exact hset hsame rfl (hcancel (h _ _ hfound) hdropped)
  | _ =>
      intro m ack hfound
      exact hgrows hkept (h m ack hfound)

/-- An acknowledgement stays with what it was called with. -/
theorem Moves.acked (hmoves : process.Moves rows event after) {k : Nat}
    {ack : AckCall} (hack : process.acks k = some ack) :
    ∃ later, after.acks k = some later ∧ ack.SameAck later := by
  have hset : ∀ {other : Process} {m found next},
      other.acks = process.acks → process.acks m = some found →
      found.SameAck next →
      ∃ later, (other.setAck m next).acks k = some later ∧
        ack.SameAck later := by
    intro other m found next hacks hfound hsame
    rw [setAck_acks, hacks]
    split
    · rename_i hself
      rw [hself, hfound] at hack
      cases hack
      exact ⟨next, rfl, hsame⟩
    · exact ⟨ack, hack, rfl, rfl, rfl, rfl, rfl⟩
  have hfree : ∀ {m next}, process.acks m = none →
      ∃ later, (process.setAck m next).acks k = some later ∧
        ack.SameAck later := by
    intro m next hnone
    rw [setAck_acks]
    split
    · rename_i hself
      rw [hself, hnone] at hack
      cases hack
    · exact ⟨ack, hack, rfl, rfl, rfl, rfl, rfl⟩
  cases hmoves with
  | ack hnone _ => exact hfree hnone
  | ackOutcome _ _ hnone => exact hfree hnone
  | advanceAck hfound hadvance => exact hset rfl hfound hadvance.same
  | ackStatement hfound _ _ => exact hset rfl hfound AckCall.replied_same
  | cancelAck hfound hdropped =>
      exact hset rfl hfound (AckCall.cancel_same hdropped)
  | _ => exact ⟨ack, hack, rfl, rfl, rfl, rfl, rfl⟩

/-- Only the transaction of an acknowledgement is logged. -/
theorem Moves.writes (hmoves : process.Moves rows event after) :
    after.writes = process.writes ∨ ∃ k ack env answer,
      event = .ackStatement k env answer ∧ process.acks k = some ack ∧
      ack.pending = true ∧ after.memory = process.memory ∧ after.system =
        (process.system.transact rows ⟨ack.op, env⟩ answer).system ∧
      after.writes = process.writes ++ [⟨k, ack.record,
        (process.system.transact rows ⟨ack.op, env⟩ answer).effects⟩] := by
  cases hmoves with
  | ackStatement hack hpending hended =>
      subst hended
      exact Or.inr ⟨_, _, _, _, rfl, hack, hpending, rfl, rfl, rfl⟩
  | _ => exact Or.inl rfl

theorem outcomeOf_finished {call : ServiceCall} {message : String}
    {res : HandlerResult} (h : outcomeOf call message = some res) :
    call.kind = .dispatch ∧ ∃ result, call.stage = .finished result := by
  unfold outcomeOf at h
  split at h
  · rename_i hkind hstage
    exact ⟨hkind, _, hstage⟩
  · rename_i hkind hstage
    exact ⟨hkind, _, hstage⟩
  · cases h

end Process

end ApalisPostgres
