/-
One acknowledgement for each claim.  The epoch of a claim is spent by the
acknowledgement that commits: no start and no acknowledgement of the claim
matches the row after it, whatever its caller was told.  The marker, the lock
and the obligation of the record follow the answers only.
-/
import ApalisPostgres.AttemptAccounting
import ApalisPostgres.DispatchAdmission
import ApalisPostgres.RefusedOutcomes

namespace ApalisPostgres

open RowStore

/-- The row of the claim, if there is one, completed more executions than the
claim had found. -/
def Spent (db : Db) (claim : ClaimAttempt) : Prop :=
  ∀ taskId row, claim.taskId = some taskId →
    db.jobs.get? taskId = some row → (claim.completed : Int) < row.attempts

/-- The operation inserts a task under the id. -/
def Op.enqueues (taskId : String) : Op → Bool
  | .pushTasksOnConn _ batch => batch.any fun task => task.id = taskId
  | _ => false

/-- The operation inserts no task under the id of the claim. -/
def Op.Spares (op : Op) (claim : ClaimAttempt) : Prop :=
  ∀ taskId, claim.taskId = some taskId → op.enqueues taskId = false

section

variable {env : Env} {view : Db} {op : Op} {stmt : Stmt}
  {changes : List Effect} {claim : ClaimAttempt}

/-- A statement that inserts no row of the id only adds to the count. -/
theorem Spent.step (h : Spent view claim) (hspares : op.Spares claim)
    (hissued : Issued view op stmt) (hbudgeted : view.Budgeted)
    (hexec : Executed env view stmt changes) :
    Spent (view.apply changes) claim := by
  intro taskId row hid hget
  rcases hexec.job_cases taskId with ⟨change, hmem, hkey, hafter⟩ | ⟨_, hsame⟩
  · have hstep := hexec.jobStep hmem
    have hrow : change.after = some row := hafter.symm.trans hget
    cases hbefore : change.before with
    | none =>
        cases hstep with
        | @enqueue queue batch task htask _ =>
            cases hissued with
            | read hread => simp [Stmt.readOnly] at hread
            | insertJobs =>
                have hspared := hspares taskId hid
                simp only [Op.enqueues, List.any_eq_false,
                  decide_eq_true_eq] at hspared
                exact absurd hkey (hspared task htask)
        | _ => cases hbefore
    | some old =>
        have hold : view.jobs.get? taskId = some old := by
          rw [← hkey, ← hstep.reads.before_eq]
          exact hbefore
        have hcount := h taskId old hid hold
        have hattempts := hstep.attempts_eq hissued hbudgeted.rows hbefore
          hrow
        split at hattempts <;> omega
  · exact h taskId row hid (hsame ▸ hget)

/-- What an acknowledgement of a recorded claim is pinned to. -/
theorem AckTaskUpdate.Acknowledges.pinned {update : AckTaskUpdate}
    {token : Option String} {res : HandlerResult} {parts : Parts}
    (h : update.Acknowledges token res parts)
    (hclaim : parts.claim = some claim) :
    claim.taskId = some update.taskId ∧
      update.attempts = claim.completed + 1 ∧
      update.startedAttempts = claim.completed := by
  have hattempt := h.attempt
  have hnonneg := h.attempts
  have hstarted := h.startedAttempts
  unfold acknowledgementAttempt at hattempt
  rw [hclaim] at hattempt
  obtain ⟨taskId, htask, hattempt⟩ := bind_ok hattempt
  obtain ⟨worker, _, hattempt⟩ := bind_ok hattempt
  obtain ⟨queue, _, hattempt⟩ := bind_ok hattempt
  obtain ⟨lockAt, _, hattempt⟩ := bind_ok hattempt
  have hsame := elim_missingField_ok htask
  split at hattempt
  · cases hattempt
  · rename_i hidentity
    split at hattempt
    · have hcount : claim.completed + 1 = update.attempts.toNat :=
        Except.ok.inj hattempt
      have htaskId : claim.taskId = some taskId := by
        by_contra hne
        exact hidentity (Or.inl hne)
      rw [h.taskId] at hsame
      cases hsame
      exact ⟨htaskId, by omega, by omega⟩
    · cases hattempt

/-- A statement of an acknowledgement writes nothing once the claim is spent,
and spends the claim when it writes. -/
theorem acknowledge_step {token : Option String} {res : HandlerResult}
    {parts : Parts} (hclaim : parts.claim = some claim)
    (hissued : Issued view (.acknowledge token res parts) stmt)
    (hexec : Executed env view stmt changes) :
    changes = [] ∨ (¬ Spent view claim ∧ Spent (view.apply changes) claim) := by
  cases hissued with
  | read hread => exact Or.inl (hexec.readOnly hread)
  | @ackTask _ _ _ update hupdate _ =>
      obtain ⟨htask, hattempts, hstarted⟩ := hupdate.pinned hclaim
      have hwritten : ∀ effect ∈ changes, ∃ row,
          view.jobs.get? update.taskId = some row ∧
          row.attempts = claim.completed ∧
          effect = .job ⟨row.id, .acknowledge, some row,
            some (ackRow env.now update row)⟩ ∧ row.id = update.taskId := by
        intro effect hmem
        have hstep := hexec.steps effect hmem
        cases effect with
        | worker change => cases hstep
        | job change =>
            cases hstep with
            | @acknowledge _ row hrow hepoch =>
                have hmatch := acknowledgeable_iff.mp hepoch
                have hget := Table.get?_of_mem hrow
                rw [hmatch.2.1] at hget
                exact ⟨row, hget, hmatch.2.2.2.2.2.trans hstarted, rfl,
                  hmatch.2.1⟩
      by_cases hnil : changes = []
      · exact Or.inl hnil
      · right
        obtain ⟨effect, rest, hcons⟩ := List.exists_cons_of_ne_nil hnil
        have hmem : effect ∈ changes := hcons ▸ List.mem_cons_self
        obtain ⟨row, hget, hcount, heffect, hid⟩ := hwritten effect hmem
        constructor
        · intro hspent
          have hlater := hspent update.taskId row htask hget
          omega
        · intro taskId later htaskId hlater
          rw [htask] at htaskId
          cases htaskId
          rcases hexec.job_cases update.taskId with
            ⟨change, hchange, _, hafter⟩ | ⟨hnot, _⟩
          · obtain ⟨found, _, _, hfound, _⟩ := hwritten (.job change)
              (mem_jobChanges.mp hchange)
            cases hfound
            rw [hlater] at hafter
            cases hafter
            change (claim.completed : Int) < update.attempts
            omega
          · refine absurd ?_ hnot
            rw [heffect] at hmem
            rw [← hid]
            exact List.mem_map_of_mem (mem_jobChanges.mpr hmem)

end

section

variable {rows : TaskConversion} {system : System} {claim : ClaimAttempt}
  {env : Nat → Env} {answer : Answer}

/-- A transaction keeps a claim spent. -/
theorem Spent.execute {op : Op} (h : Spent system.db claim)
    (hreachable : Reachable rows (fun _ _ => True) system)
    (hspares : op.Spares claim) :
    Spent (system.step rows ⟨op, env⟩).db claim := by
  have hkept := (System.execute_ensures rows system ⟨op, env⟩
    (P := fun view _ => view.Budgeted ∧ Spent view claim)
    ⟨hreachable.budgeted, h⟩
    (fun stmt observed view effects changes hissued hview hexec =>
      ⟨hexec.budgeted hissued hview.1,
        hview.2.step hspares hissued hview.1 hexec⟩)).1
  exact hkept.2

theorem Spent.transact {op : Op} (h : Spent system.db claim)
    (hreachable : Reachable rows (fun _ _ => True) system)
    (hspares : op.Spares claim) :
    Spent (system.transact rows ⟨op, env⟩ answer).system.db claim := by
  cases answer with
  | answered => exact h.execute hreachable hspares
  | failed applied error =>
      cases applied with
      | true => exact h.execute hreachable hspares
      | false => exact h

/-- An acknowledgement that wrote spent its claim, and one of a spent claim
writes nothing. -/
theorem acknowledge_spends {token : Option String} {res : HandlerResult}
    {parts : Parts} (hclaim : parts.claim = some claim) :
    ((system.execute rows ⟨.acknowledge token res parts, env⟩).effects ≠ [] →
      Spent (system.step rows ⟨.acknowledge token res parts, env⟩).db
        claim) ∧
    (Spent system.db claim →
      (system.execute rows ⟨.acknowledge token res parts, env⟩).effects =
        []) := by
  have hkept := (System.execute_ensures rows system
    ⟨.acknowledge token res parts, env⟩
    (P := fun view effects => (effects ≠ [] → Spent view claim) ∧
      (Spent system.db claim → effects = [] ∧ Spent view claim))
    ⟨fun hne => absurd rfl hne, fun hspent => ⟨rfl, hspent⟩⟩ ?_).1
  · exact ⟨hkept.1, fun hspent => (hkept.2 hspent).1⟩
  · intro stmt observed view effects changes hissued hview hexec
    rcases acknowledge_step hclaim hissued hexec with rfl | ⟨hopen, hspent⟩
    · rw [List.append_nil]
      exact hview
    · refine ⟨fun _ => hspent, ?_⟩
      intro hbefore
      exact absurd (hview.2 hbefore).2 hopen

/-- A start of a spent claim matches nothing. -/
theorem Spent.start_unmatched {parts : Parts} {token : Option String}
    {worker : String} {restart : Bool} {start : StartClaim}
    (h : Spent system.db claim) (hclaim : parts.claim = some claim)
    (htask : parts.taskId = claim.taskId)
    (hstart : startClaim token worker restart parts = .ok start) :
    (system.execute rows ⟨.startTask start, env⟩).effects = [] ∧
      (system.execute rows ⟨.startTask start, env⟩).outcome ≠
        .ok (.started true) := by
  have hstarts := startClaim_ok hstart
  have hid : claim.taskId = some start.taskId := htask.symm.trans
    hstarts.taskId
  have hcount : ∀ row, Startable start row →
      row.attempts = (claim.completed : Int) := by
    intro row hmatch
    have hpinned := (hstarts.recorded claim hclaim).1
    rcases hmatch.attempts with hnone | hsome
    · rw [hnone] at hpinned
      cases hpinned
    · exact Option.some.inj (hsome.symm.trans hpinned)
  have hkept := (System.execute_ensures rows system ⟨.startTask start, env⟩
    (P := fun view effects => effects = [] ∧ Spent view claim) ⟨rfl, h⟩ ?_).1
  · refine ⟨hkept.1, ?_⟩
    intro hstarted
    obtain ⟨row, hmatch, hget⟩ := startTask_runs hstarted
    have hlater := hkept.2 start.taskId (startRow row) hid hget
    have hattempts := hcount row hmatch
    have hsame : (startRow row).attempts = row.attempts := rfl
    omega
  · intro stmt observed view effects changes hissued hview hexec
    have hnil : changes = [] := by
      cases hissued with
      | read hread => exact hexec.readOnly hread
      | startTask =>
          apply List.eq_nil_iff_forall_not_mem.mpr
          intro effect hmem
          have hstep := hexec.steps effect hmem
          cases effect with
          | worker change => cases hstep
          | job change =>
              cases hstep with
              | @start _ row _ hrow hmatches _ _ =>
                  have hmatch := startable_iff.mp hmatches
                  have hget := Table.get?_of_mem hrow
                  rw [hmatch.id] at hget
                  have hlater := hview.2 start.taskId row hid hget
                  have hattempts := hcount row hmatch
                  omega
    subst hnil
    rw [List.append_nil]
    exact hview

end

/-- The parts are those of a clone of the recorded claim. -/
def CloneOf (memory : Memory) (id : Nat) (parts : Parts) : Prop :=
  ∃ record, memory.records id = some record ∧
    parts.claim = some record.claim ∧ parts.taskId = record.claim.taskId

theorem CloneOf.grows {memory later : Memory} {id : Nat} {parts : Parts}
    (h : CloneOf memory id parts) (hgrows : memory.Grows later) :
    CloneOf later id parts := by
  obtain ⟨record, hrecord, hclaim, htask⟩ := h
  obtain ⟨grown, hgrown, hkept⟩ := hgrows.records id record hrecord
  refine ⟨grown, hgrown, ?_, ?_⟩
  · rw [hkept.claim]
    exact hclaim
  · rw [hkept.claim]
    exact htask

namespace ServiceCall

/-- The statement of a start of the call's own parts. -/
def StartsParts (call : ServiceCall) (claim : StartClaim) : Prop :=
  ∃ token worker restart,
    startClaim token worker restart call.request.parts = .ok claim

/-- The operations a call may issue. -/
inductive Issuable (call : ServiceCall) : Op → Prop where
  | start {claim : StartClaim} (hstarts : call.StartsParts claim) :
      Issuable call (.startTask claim)
  | lock {taskId worker : String} {queue token : Option String} :
      Issuable call (.lockTaskWithToken taskId worker queue token)

/-- What is known of the calls on the record. -/
structure Pinned (id : Nat) (memory : Memory) (call : ServiceCall) :
    Prop where
  clone : call.request.record = some id → CloneOf memory id call.request.parts
  starting : ∀ claim reply, call.stage = .starting claim reply →
    call.StartsParts claim
  detached : ∀ op, call.detached = some op → call.Issuable op

section

variable {id n fresh : Nat} {memory after : Memory} {call next : ServiceCall}
  {op : Op}

theorem Issuable.spares (h : call.Issuable op) (claim : ClaimAttempt) :
    op.Spares claim := by
  intro taskId _
  cases h with
  | start _ => rfl
  | lock => rfl

theorem Issuable.same (h : call.Issuable op) (hsame : call.SameCall next) :
    next.Issuable op := by
  cases h with
  | start hstarts =>
      apply Issuable.start
      unfold StartsParts
      rw [hsame.request]
      exact hstarts
  | lock => exact .lock

theorem Pinned.issuable (h : Pinned id memory call)
    (hop : call.pending = some op) : call.Issuable op := by
  unfold pending at hop
  split at hop
  · rename_i claim hstage
    cases hop
    exact .start (h.starting claim none hstage)
  · cases hop
    exact .lock
  · exact h.detached op hop

theorem Pinned.unissued
    (hclone : call.request.record = some id →
      CloneOf memory id call.request.parts)
    (hstage : ∀ claim reply, call.stage ≠ .starting claim reply)
    (hdetached : call.detached = none) : Pinned id memory call where
  clone := hclone
  starting claim reply hstarting := absurd hstarting (hstage claim reply)
  detached op hop := by
    rw [hdetached] at hop
    cases hop

theorem Pinned.grows (h : Pinned id memory call)
    (hgrows : memory.Grows after) : Pinned id after call :=
  ⟨fun hrecord => (h.clone hrecord).grows hgrows, h.starting, h.detached⟩

/-- A step reaches the statement of a start only with that of its parts. -/
theorem Advances.starting (h : Advances n fresh memory call after next)
    {claim : StartClaim} {reply : Option (Except Error Bool)}
    (hstage : next.stage = .starting claim reply) :
    next.StartsParts claim := by
  cases h with
  | refuses _ _ =>
      unfold refuse at hstage
      dsimp only at hstage
      split at hstage <;> cases hstage
  | issues _ hclaim =>
      cases hstage
      exact ⟨_, _, _, hclaim⟩
  | settles _ =>
      dsimp only at hstage
      split at hstage <;> cases hstage
  | _ => cases hstage

theorem Advances.detached (h : Advances n fresh memory call after next) :
    next.detached = call.detached := by
  cases h with
  | _ => rfl

theorem Advances.pinned (h : Pinned id memory call)
    (hadvances : Advances n fresh memory call after next) :
    Pinned id after next where
  clone := by
    rw [hadvances.same.request]
    intro hrecord
    exact (h.clone hrecord).grows hadvances.grows
  starting _ _ hstage := hadvances.starting hstage
  detached op hop := by
    rw [hadvances.detached] at hop
    exact (h.detached op hop).same hadvances.same

theorem replied_pinned {db : Db} {outcome : Except Error Outcome}
    (h : Pinned id memory call)
    (hreplied : call.replied db outcome = some next) :
    Pinned id memory next := by
  have hsame := replied_same hreplied
  constructor
  · rw [hsame.request]
    exact h.clone
  · intro claim reply hstage
    have hstarts : call.StartsParts claim := by
      unfold replied at hreplied
      dsimp only at hreplied
      split at hreplied
      · rename_i issued hissued
        split at hreplied <;> cases hreplied <;> cases hstage <;>
          exact h.starting claim none hissued
      · split at hreplied <;> cases hreplied <;> cases hstage
      · cases hreplied
        exact h.starting claim reply hstage
    unfold StartsParts
    rw [hsame.request]
    exact hstarts
  · intro op hop
    refine Issuable.same ?_ hsame
    apply h.detached
    unfold replied at hreplied
    dsimp only at hreplied
    split at hreplied
    · split at hreplied <;> cases hreplied <;> exact hop
    · split at hreplied <;> cases hreplied <;> exact hop
    · cases hreplied
      cases hop

theorem cancel_pinned (h : Pinned id memory call)
    (hcancel : call.cancel = some next) : Pinned id memory next := by
  have hsame := cancel_same hcancel
  constructor
  · rw [hsame.request]
    exact h.clone
  · intro claim reply hstage
    unfold cancel at hcancel
    split at hcancel
    · cases hcancel
      cases hstage
    · cases hcancel
      cases hstage
    · split at hcancel <;> cases hcancel
      cases hstage
    · cases hcancel
      cases hstage
    · cases hcancel
      cases hstage
    · cases hcancel
  · intro op hop
    refine Issuable.same ?_ hsame
    unfold cancel at hcancel
    split at hcancel
    · cases hcancel
      exact h.detached op hop
    · cases hcancel
      exact h.detached op hop
    · split at hcancel <;> cases hcancel
      exact h.detached op hop
    · cases hcancel
      exact h.issuable hop
    · cases hcancel
      exact h.issuable hop
    · cases hcancel

end

end ServiceCall

namespace Process

/-- The acknowledgements through the record that committed a change. -/
def commitsOf (process : Process) (id : Nat) : List AckWrite :=
  process.writes.filter fun write =>
    write.record = some id && !write.effects.isEmpty

/-- The condition on a run of one recorded claim: dispatches and starts on
the record are made with clones of the claim, and once an acknowledgement of
it committed nobody enqueues another task under its id. -/
def keepsClaim (id : Nat) (process : Process) : ProcessEvent → Bool
  | .database invocation => (process.commitsOf id).isEmpty ||
      !(process.memory.records id).any fun record =>
        record.claim.taskId.any fun taskId => invocation.op.enqueues taskId
  | .dispatch _ _ request => request.record ≠ some id ||
      (process.memory.records id).all fun record =>
        request.parts.taskId = record.claim.taskId
  | .start _ _ parts record _ => record ≠ some id ||
      (process.memory.records id).all fun found =>
        parts.taskId = found.claim.taskId
  | _ => true

/-- An acknowledgement through the record carries its snapshot. -/
def Carried (id : Nat) (memory : Memory) (ack : AckCall) : Prop :=
  ack.record = some id → ∃ record, memory.records id = some record ∧
    ack.parts.claim = some record.claim

/-- The invariant of a recorded claim: at most one acknowledgement of it
committed, and it is spent from then on. -/
structure Single (rows : TaskConversion) (id : Nat) (process : Process) :
    Prop where
  reachable : Reachable rows (fun _ _ => True) process.system
  calls : ∀ n call, process.calls n = some call →
    call.Pinned id process.memory
  acks : ∀ k ack, process.acks k = some ack →
    Carried id process.memory ack
  once : (process.commitsOf id).length ≤ 1
  spent : process.commitsOf id ≠ [] → ∃ record,
    process.memory.records id = some record ∧
      Spent process.system.db record.claim

section

variable {rows : TaskConversion} {id : Nat} {process after : Process}
  {event : ProcessEvent}

theorem single_initial : Single rows id .initial where
  reachable := .initial
  calls _ _ hcall := by cases hcall
  acks _ _ hack := by cases hack
  once := Nat.zero_le 1
  spent h := absurd rfl h

theorem carries_cloneOf {memory : Memory} {parts : Parts}
    {record : Option Nat} (hcarries : memory.carries parts record = true)
    (hrecord : record = some id)
    (htask : ((memory.records id).all fun found =>
      parts.taskId = found.claim.taskId) = true) :
    CloneOf memory id parts := by
  subst hrecord
  simp only [Memory.carries, Option.any_eq_true, decide_eq_true_eq] at hcarries
  obtain ⟨found, hfound, hclaim⟩ := hcarries
  simp only [hfound, Option.all_some, decide_eq_true_eq] at htask
  exact ⟨found, hfound, hclaim, htask⟩

theorem Single.calls_step (h : Single rows id process)
    (hadmits : process.keepsClaim id event = true)
    (hmoves : process.Moves rows event after) :
    ∀ n call, after.calls n = some call → call.Pinned id after.memory := by
  refine hmoves.forall_calls
    (P := fun _ memory call => ServiceCall.Pinned id memory call)
    (fun hgrows hpinned => hpinned.grows hgrows) ?_ ?_
    (fun hpinned hadvances => hadvances.pinned hpinned)
    (fun hpinned hreplied => ServiceCall.replied_pinned hpinned hreplied) ?_
    (fun hpinned hcancel => ServiceCall.cancel_pinned hpinned hcancel) h.calls
  · intro n binding request hevent hcarries _
    subst hevent
    simp only [keepsClaim, Bool.or_eq_true, decide_eq_true_eq] at hadmits
    refine .unissued ?_ (fun _ _ hstage => by cases hstage) rfl
    intro hrecord
    rcases hadmits with hother | htask
    · exact absurd hrecord hother
    · exact carries_cloneOf hcarries hrecord htask
  · intro n binding parts record counter hevent hcarries _
    subst hevent
    simp only [keepsClaim, Bool.or_eq_true, decide_eq_true_eq] at hadmits
    have hclone : record = some id → CloneOf process.memory id parts := by
      intro hrecord
      rcases hadmits with hother | htask
      · exact absurd hrecord hother
      · exact carries_cloneOf hcarries hrecord htask
    unfold ServiceCall.start
    cases hworker : parts.ctx.lockBy with
    | none => exact .unissued hclone (fun _ _ hstage => by cases hstage) rfl
    | some worker =>
        exact .unissued hclone (fun _ _ hstage => by cases hstage) rfl
  · intro n res call hpinned _
    refine ⟨hpinned.clone, (fun _ _ hstage => by cases hstage), ?_⟩
    intro op hop
    exact (hpinned.detached op hop).same ⟨rfl, rfl, rfl⟩

theorem Carried.same {memory : Memory} {ack next : AckCall}
    (h : Carried id memory ack) (hsame : ack.SameAck next) :
    Carried id memory next := by
  unfold Carried
  rw [hsame.record, hsame.parts]
  exact h

theorem Carried.grows {memory later : Memory} {ack : AckCall}
    (h : Carried id memory ack) (hgrows : memory.Grows later) :
    Carried id later ack := by
  intro hrecord
  obtain ⟨record, hfound, hclaim⟩ := h hrecord
  obtain ⟨grown, hgrown, hkept⟩ := hgrows.records id record hfound
  exact ⟨grown, hgrown, hclaim.trans (congrArg some hkept.claim.symm)⟩

theorem Single.acks_step (h : Single rows id process)
    (hmoves : process.Moves rows event after) :
    ∀ k ack, after.acks k = some ack → Carried id after.memory ack := by
  refine hmoves.forall_acks (P := fun _ memory ack => Carried id memory ack)
    (fun hgrows hcarried => hcarried.grows hgrows) ?_ ?_
    (fun _ _ hcarried hadvances =>
      (hcarried.grows hadvances.grows).same hadvances.same)
    (fun hcarried _ => hcarried.same AckCall.replied_same)
    (fun hcarried hcancel => hcarried.same (AckCall.cancel_same hcancel))
    h.acks
  · intro k binding res parts record hcarries hrecord
    cases hrecord
    simp only [Memory.carries, Option.any_eq_true,
      decide_eq_true_eq] at hcarries
    exact hcarries
  · intro n call message res k binding attempt hcall _ hrecord
    obtain ⟨record, hfound, hclaim, _⟩ := (h.calls n call hcall).clone hrecord
    exact ⟨record, hfound, hclaim⟩

theorem commitsOf_append {write : AckWrite} (id : Nat)
    (hadded : after.writes = process.writes ++ [write]) :
    after.commitsOf id = process.commitsOf id ++
      if write.record = some id ∧ write.effects ≠ [] then [write]
      else [] := by
  unfold commitsOf
  rw [hadded, List.filter_append]
  simp [List.filter_cons]

/-- A transaction that committed a change ran to its end. -/
theorem transact_effects {system : System} {invocation : Invocation}
    {answer : Answer}
    (h : (system.transact rows invocation answer).effects ≠ []) :
    (system.transact rows invocation answer).effects =
        (system.execute rows invocation).effects ∧
      (system.transact rows invocation answer).system =
        system.step rows invocation := by
  cases answer with
  | answered => exact ⟨rfl, rfl⟩
  | failed applied error =>
      cases applied with
      | true => exact ⟨rfl, rfl⟩
      | false => exact absurd rfl h

/-- A step that logs no acknowledgement keeps the invariant if it keeps a
spent claim spent. -/
theorem Single.unlogged (h : Single rows id process)
    (hgrows : process.memory.Grows after.memory)
    (hcalls : ∀ n call, after.calls n = some call →
      call.Pinned id after.memory)
    (hacks : ∀ k ack, after.acks k = some ack → Carried id after.memory ack)
    (hwrites : after.writes = process.writes)
    (hreachable : Reachable rows (fun _ _ => True) after.system)
    (hspent : ∀ record, process.commitsOf id ≠ [] →
      process.memory.records id = some record →
      Spent process.system.db record.claim →
      Spent after.system.db record.claim) : Single rows id after := by
  have hcommits : after.commitsOf id = process.commitsOf id := by
    unfold commitsOf
    rw [hwrites]
  refine ⟨hreachable, hcalls, hacks, hcommits ▸ h.once, ?_⟩
  intro hsome
  rw [hcommits] at hsome
  obtain ⟨record, hrecord, hbefore⟩ := h.spent hsome
  obtain ⟨grown, hgrown, hkept⟩ := hgrows.records id record hrecord
  refine ⟨grown, hgrown, ?_⟩
  rw [hkept.claim]
  exact hspent record hsome hrecord hbefore

/-- The transaction of an acknowledgement through the record commits nothing
if the claim is spent, and spends it otherwise. -/
theorem Single.acknowledged (h : Single rows id process) {k : Nat}
    {ack : AckCall} (hack : process.acks k = some ack)
    (hrecord : ack.record = some id) (env : Nat → Env) (answer : Answer)
    (heffects : (process.system.transact rows ⟨ack.op, env⟩
      answer).effects ≠ []) :
    process.commitsOf id = [] ∧ ∃ record,
      process.memory.records id = some record ∧
      Spent (process.system.transact rows ⟨ack.op, env⟩ answer).system.db
        record.claim := by
  obtain ⟨record, hfound, hclaim⟩ := h.acks k ack hack hrecord
  obtain ⟨hexecuted, hsystem⟩ := transact_effects heffects
  rw [hexecuted] at heffects
  constructor
  · by_contra hsome
    obtain ⟨other, hother, hspent⟩ := h.spent hsome
    cases hfound.symm.trans hother
    exact heffects ((acknowledge_spends hclaim).2 hspent)
  · refine ⟨record, hfound, ?_⟩
    rw [hsystem]
    exact (acknowledge_spends hclaim).1 heffects

/-- The step of the transaction of an acknowledgement. -/
theorem Single.logged (h : Single rows id process)
    (hcalls : ∀ n call, after.calls n = some call →
      call.Pinned id after.memory)
    (hacks : ∀ k ack, after.acks k = some ack → Carried id after.memory ack)
    {k : Nat} {ack : AckCall} {env : Nat → Env} {answer : Answer}
    (hack : process.acks k = some ack)
    (hmemory : after.memory = process.memory)
    (hsystem : after.system =
      (process.system.transact rows ⟨ack.op, env⟩ answer).system)
    (hadded : after.writes = process.writes ++ [⟨k, ack.record,
      (process.system.transact rows ⟨ack.op, env⟩ answer).effects⟩]) :
    Single rows id after := by
  have hreachable : Reachable rows (fun _ _ => True) after.system :=
    hsystem ▸ h.reachable.transact answer
  have hcommits := commitsOf_append id hadded
  by_cases hwrote : ack.record = some id ∧
      (process.system.transact rows ⟨ack.op, env⟩ answer).effects ≠ []
  · obtain ⟨hnone, record, hrecord, hspent⟩ :=
      h.acknowledged hack hwrote.1 env answer hwrote.2
    rw [if_pos hwrote, hnone, List.nil_append] at hcommits
    refine ⟨hreachable, hcalls, hacks, ?_, ?_⟩
    · rw [hcommits]
      exact Nat.le_refl 1
    · intro _
      rw [hmemory, hsystem]
      exact ⟨record, hrecord, hspent⟩
  · rw [if_neg hwrote, List.append_nil] at hcommits
    refine ⟨hreachable, hcalls, hacks, ?_, ?_⟩
    · rw [hcommits]
      exact h.once
    · intro hsome
      rw [hcommits] at hsome
      obtain ⟨record, hrecord, hspent⟩ := h.spent hsome
      rw [hmemory, hsystem]
      exact ⟨record, hrecord, hspent.transact h.reachable fun _ _ => rfl⟩

/-- The step lemma. -/
theorem Single.step (h : Single rows id process)
    (hadmits : process.keepsClaim id event = true)
    (hstep : process.step rows event = some after) :
    Single rows id after := by
  have hmoves := step_cases hstep
  have hgrows := hmoves.grows
  have hcalls := h.calls_step hadmits hmoves
  have hacks := h.acks_step hmoves
  rcases hmoves.writes with hsame |
    ⟨k, ack, env, answer, rfl, hack, _, hmemory, hsystem, hadded⟩
  swap
  · exact h.logged hcalls hacks hack hmemory hsystem hadded
  cases hmoves with
  | database invocation =>
      refine h.unlogged hgrows hcalls hacks rfl
        (.step h.reachable invocation trivial) ?_
      intro record hsome hrecord hspent
      refine hspent.execute h.reachable ?_
      intro taskId htask
      simpa [keepsClaim, hsome, hrecord, htask] using hadmits
  | statement hcall hop _ _ =>
      refine h.unlogged hgrows hcalls hacks rfl (h.reachable.transact _) ?_
      intro record _ _ hspent
      exact hspent.transact h.reachable
        (((h.calls _ _ hcall).issuable hop).spares record.claim)
  | ackStatement _ _ _ => exact absurd hsame (by simp [setAck])
  | _ =>
      exact h.unlogged hgrows hcalls hacks rfl h.reachable
        (fun _ _ _ hspent => hspent)

end

end Process

/-- The acknowledgement returned an error. -/
def AckResult.failed : AckResult → Bool
  | .returned (.error _) => true
  | _ => false

namespace AckCall

/-- What an acknowledgement that reached `ack_task` owes to the lease of the
name: it is armed as long as it may fail, and a failure retires the name
unless the acknowledgement of the claim is recorded. -/
def Owes (memory : Memory) (ack : AckCall) (name : String) : Prop :=
  match ack.stage with
  | .issuing _ => ack.guard.armed = some name
  | .releasing result | .settling result | .retiring result =>
      result.failed = true → ack.guard.armed = some name
  | .finished result => result.failed = true →
      memory.retired name = true ∨ memory.isAcknowledged ack.record = true
  | _ => True

/-- The acknowledgement has not decided yet. -/
def undecided (ack : AckCall) : Bool :=
  match ack.stage with
  | .created | .waiting | .locked => true
  | _ => false

/-- What is known of the obligation of an acknowledgement. -/
structure Obliged (memory : Memory) (ack : AckCall) : Prop where
  claim : ack.guard.claim = ack.record
  undecided : ack.undecided = true → ack.issued = false ∧
    ack.guard.armed = ack.binding.forWorker ack.parts.ctx.lockBy
  owes : ∀ name, ack.issued = true →
    ack.binding.forWorker ack.parts.ctx.lockBy = some name →
    Owes memory ack name

section

variable {k : Nat} {memory later : Memory} {ack next : AckCall}

theorem Owes.grows {name : String} (h : Owes memory ack name)
    (hgrows : memory.Grows later) : Owes later ack name := by
  unfold Owes at h ⊢
  split at h
  · exact h
  · exact h
  · exact h
  · exact h
  · intro hfailed
    exact (h hfailed).imp (hgrows.retired name) hgrows.isAcknowledged
  · trivial

theorem Obliged.grows (h : Obliged memory ack)
    (hgrows : memory.Grows later) : Obliged later ack :=
  ⟨h.claim, h.undecided, fun name hissued hname =>
    (h.owes name hissued hname).grows hgrows⟩

theorem obliged_call (memory : Memory) (binding : Binding)
    (res : HandlerResult) (parts : Parts) (record outcomeOf : Option Nat) :
    Obliged memory (.call binding res parts record outcomeOf) where
  claim := rfl
  undecided _ := ⟨rfl, rfl⟩
  owes _ hissued := by cases hissued

theorem settle_claim (guard : LeaseObligation) (memory : Memory) :
    (guard.settle memory).claim = guard.claim := by
  unfold LeaseObligation.settle
  split <;> rfl

theorem Obliged.unissued (hclaim : next.guard.claim = next.record)
    (hissued : next.issued = false) (hdecided : next.undecided = false) :
    Obliged memory next where
  claim := hclaim
  undecided h := by
    rw [hdecided] at h
    cases h
  owes _ h := by
    rw [hissued] at h
    cases h

theorem Obliged.decided (hclaim : next.guard.claim = next.record)
    (hdecided : next.undecided = false)
    (howes : ∀ name, next.issued = true →
      next.binding.forWorker next.parts.ctx.lockBy = some name →
      Owes memory next name) : Obliged memory next where
  claim := hclaim
  undecided h := by
    rw [hdecided] at h
    cases h
  owes := howes

/-- Settling a failed acknowledgement leaves it armed, or finds the marker of
its record. -/
theorem Obliged.settles {result : AckResult} (h : Obliged memory ack)
    (hstage : ack.stage = .settling result) :
    Obliged memory { ack with
      guard := ack.guard.settle memory
      stage := if (ack.guard.settle memory).armed.isSome
        then .retiring result else .finished result } := by
  have howes : ∀ name, ack.issued = true →
      ack.binding.forWorker ack.parts.ctx.lockBy = some name →
      result.failed = true → ack.guard.armed = some name := by
    intro name hissued hname hfailed
    have hsettling := h.owes name hissued hname
    simp only [Owes, hstage] at hsettling
    exact hsettling hfailed
  have hclaim := (settle_claim ack.guard memory).trans h.claim
  cases hdone : memory.isAcknowledged ack.record with
  | true =>
      have hsettled : ack.guard.settle memory = ack.guard.disarm := by
        rw [LeaseObligation.settle, h.claim, if_pos hdone]
      rw [hsettled] at hclaim ⊢
      refine .decided hclaim rfl ?_
      intro name _ _ _
      exact Or.inr hdone
  | false =>
      have hsettled : ack.guard.settle memory = ack.guard := by
        rw [LeaseObligation.settle, h.claim, hdone]
        rfl
      rw [hsettled]
      cases harmed : ack.guard.armed with
      | none =>
          refine .decided h.claim rfl ?_
          intro name hissued hname hfailed
          have hsome := howes name hissued hname hfailed
          rw [harmed] at hsome
          cases hsome
      | some armed =>
          refine .decided h.claim rfl ?_
          intro name hissued hname hfailed
          exact howes name hissued hname hfailed

theorem Obliged.retires {result : AckResult} (h : Obliged memory ack)
    (hstage : ack.stage = .retiring result) :
    Obliged (ack.guard.armed.elim memory memory.retire)
      { ack with guard := ack.guard.disarm, stage := .finished result } := by
  refine .decided h.claim rfl ?_
  intro name hissued hname hfailed
  have hretiring := h.owes name hissued hname
  simp only [Owes, hstage] at hretiring
  rw [hretiring hfailed]
  exact Or.inl (by simp [Memory.retire])

/-- The step lemma of the obligation. -/
theorem Advances.obliged (h : Obliged memory ack)
    (hadvances : ack.Advances k memory later next) :
    Obliged later next := by
  have hfresh : ack.undecided = true → ack.issued = false := fun hopen =>
    (h.undecided hopen).1
  cases hadvances with
  | refused hstage _ =>
      exact .unissued h.claim (hfresh (by simp [undecided, hstage])) rfl
  | waits hstage _ =>
      have hopen := h.undecided (by simp [undecided, hstage])
      exact ⟨h.claim, fun _ => hopen, fun _ _ _ => trivial⟩
  | bare hstage _ =>
      have hopen := h.undecided (by simp [undecided, hstage])
      exact ⟨h.claim, fun _ => hopen, fun _ _ _ => trivial⟩
  | locks hstage _ _ =>
      have hopen := h.undecided (by simp [undecided, hstage])
      exact ⟨h.claim, fun _ => hopen, fun _ _ _ => trivial⟩
  | repeats hstage _ =>
      exact .unissued h.claim (hfresh (by simp [undecided, hstage])) rfl
  | incomplete hstage _ _ =>
      exact .unissued h.claim (hfresh (by simp [undecided, hstage])) rfl
  | issues hstage _ _ =>
      refine .decided h.claim rfl ?_
      intro name _ hname
      exact (h.undecided (by simp [undecided, hstage])).2.trans hname
  | marks hstage =>
      refine .decided h.claim rfl ?_
      intro name _ _ hfailed
      cases hfailed
  | fails hstage =>
      refine .decided h.claim rfl ?_
      intro name hissued hname _
      have hissuing := h.owes name hissued hname
      simp only [Owes, hstage] at hissuing
      exact hissuing
  | releases hstage =>
      refine .decided h.claim rfl ?_
      intro name hissued hname hfailed
      have hreleasing := h.owes name hissued hname
      simp only [Owes, hstage] at hreleasing
      exact hreleasing hfailed
  | settles hstage => exact h.settles hstage
  | retires hstage => exact h.retires hstage

theorem replied_obliged {outcome : Except Error Outcome}
    (h : Obliged memory ack) : Obliged memory (ack.replied outcome) := by
  unfold replied
  split
  · rename_i hstage
    refine .decided h.claim rfl ?_
    intro name hissued hname
    have hissuing := h.owes name hissued hname
    simp only [Owes, hstage] at hissuing
    exact hissuing
  · exact ⟨h.claim, h.undecided, h.owes⟩

theorem cancel_obliged (h : Obliged memory ack)
    (hcancel : ack.cancel = some next) : Obliged memory next := by
  unfold cancel at hcancel
  split at hcancel <;> cases hcancel <;> refine .decided h.claim rfl ?_ <;>
    exact fun name _ _ hfailed => by cases hfailed

end

end AckCall

namespace Process

section

variable {rows : TaskConversion} {process after : Process}
  {event : ProcessEvent}

/-- The obligation of every acknowledgement is as it should be. -/
def ObligedAcks (process : Process) : Prop :=
  ∀ k ack, process.acks k = some ack → ack.Obliged process.memory

theorem ObligedAcks.step (h : ObligedAcks process)
    (hstep : process.step rows event = some after) : ObligedAcks after :=
  (step_cases hstep).forall_acks
    (P := fun _ memory ack => AckCall.Obliged memory ack)
    (fun hgrows hobliged => hobliged.grows hgrows)
    (fun _ _ _ _ _ _ => AckCall.obliged_call _ _ _ _ _ _)
    (fun _ _ _ _ _ => AckCall.obliged_call _ _ _ _ _ _)
    (fun _ _ hobliged hadvances => hadvances.obliged hobliged)
    (fun hobliged _ => AckCall.replied_obliged hobliged)
    (fun hobliged hcancel => AckCall.cancel_obliged hobliged hcancel) h

theorem obligedAcks_of_reachable (h : (machine rows).Reachable process) :
    ObligedAcks process := by
  refine h.invariant ObligedAcks ?_ (fun hold hevent => hold.step hevent)
  intro start hstart k ack hack
  rw [show start = .initial from hstart] at hack
  cases hack

end

end Process

section

variable {k n fresh : Nat} {memory later : Memory}

/-- Once the acknowledgement of its claim is recorded, no acknowledgement
gets to the step that retires. -/
theorem AckCall.Advances.not_retiring {ack next : AckCall}
    (h : ack.Advances k memory later next)
    (hclaim : ack.guard.claim = ack.record)
    (hdone : memory.isAcknowledged ack.record = true) (result : AckResult) :
    next.stage ≠ .retiring result := by
  cases h with
  | settles _ =>
      rw [LeaseObligation.settle, hclaim, if_pos hdone]
      exact nofun
  | _ => exact nofun

theorem AckCall.Advances.retired {ack next : AckCall}
    (h : ack.Advances k memory later next)
    (hstage : ∀ result, ack.stage ≠ .retiring result) :
    later.retired = memory.retired := by
  cases h with
  | retires hretiring => exact absurd hretiring (hstage _)
  | _ => rfl

namespace ServiceCall

/-- The call starts the claim of its parts: a dispatch to the claim's own
worker, or a start with an owner. -/
def startsClaim (call : ServiceCall) : Bool :=
  match call.kind with
  | .dispatch => call.request.preclaimed && call.request.parts.taskId.isSome
  | .start => call.request.worker.isSome

/-- Where a start made after the acknowledgement may stand. -/
def Late (call : ServiceCall) : Prop :=
  call.detached = none ∧
  match call.stage with
  | .created => call.kind = .dispatch
  | .entering | .checking _ => True
  | .refusing error => error = call.alreadyAcknowledged
  | .settling result | .retiring result | .finished result =>
      result = .refused call.alreadyAcknowledged ∨ result = .dropped
  | _ => False

variable {call next : ServiceCall}

theorem refuse_late (guard : LeaseObligation)
    (h : call.detached = none) :
    Late ({ call with guard := guard }.refuse call.alreadyAcknowledged) := by
  refine ⟨h, ?_⟩
  cases hkind : call.kind with
  | dispatch =>
      simp only [refuse]
      rfl
  | start =>
      simp only [refuse]
      exact Or.inl rfl

/-- A late start is refused for the acknowledgement and nothing else. -/
theorem Refuses.late {error : Error} (h : Refuses memory call error)
    (hlate : Late call) (hstarts : call.startsClaim = true) :
    error = call.alreadyAcknowledged := by
  have hstage := hlate.2
  have hcreated : call.stage = .created → call.request.preclaimed = true ∧
      call.request.parts.taskId.isSome = true := by
    intro hnew
    rw [hnew] at hstage
    simpa [startsClaim, hstage] using hstarts
  cases h with
  | noWorker hnew hworker =>
      obtain ⟨worker, hsome, _⟩ := preclaimed_worker (hcreated hnew).1
      rw [hworker] at hsome
      cases hsome
  | noTask hnew _ htask =>
      have hsome := (hcreated hnew).2
      rw [htask] at hsome
      cases hsome
  | acknowledged _ _ => rfl
  | unlocked hnew hfree =>
      rw [(hcreated hnew).1] at hfree
      cases hfree
  | retired hearlier | incomplete hearlier | notStarted hearlier _
  | notLocked hearlier =>
      rw [hearlier] at hstage
      exact hstage.elim

/-- The step lemma of a late start. -/
theorem Advances.late (h : Advances n fresh memory call later next)
    (hdone : memory.isAcknowledged call.request.record = true)
    (hstarts : call.startsClaim = true) (hlate : Late call) : Late next := by
  have hstage := hlate.2
  cases h with
  | refuses hrefuses _ =>
      rw [hrefuses.late hlate hstarts]
      exact refuse_late _ hlate.1
  | enters _ _ _ hopen =>
      rw [hdone] at hopen
      cases hopen
  | locks hnew _ _ hfree =>
      rw [hnew] at hstage
      simp only [startsClaim, hstage, Bool.and_eq_true] at hstarts
      rw [hstarts.1] at hfree
      cases hfree
  | reads _ => exact ⟨hlate.1, trivial⟩
  | passes _ hopen =>
      rw [hdone] at hopen
      cases hopen
  | attempts hearlier | issues hearlier _ | matched hearlier _
  | began hearlier _ | relocks hearlier _ | calls hearlier =>
      rw [hearlier] at hstage
      exact hstage.elim
  | counts hrefusing =>
      rw [hrefusing] at hstage
      exact ⟨hlate.1, Or.inl (congrArg CallResult.refused hstage)⟩
  | settles hsettling =>
      rw [hsettling] at hstage
      refine ⟨hlate.1, ?_⟩
      dsimp only
      cases (call.guard.settle memory).armed.isSome with
      | true => exact hstage
      | false => exact hstage
  | retires hretiring =>
      rw [hretiring] at hstage
      exact ⟨hlate.1, hstage⟩

theorem replied_late {db : Db} {outcome : Except Error Outcome}
    (hlate : Late call) (hreplied : call.replied db outcome = some next) :
    Late next := by
  have hstage := hlate.2
  unfold replied at hreplied
  dsimp only at hreplied
  split at hreplied
  · rename_i hearlier
    rw [hearlier] at hstage
    exact hstage.elim
  · rename_i hearlier
    rw [hearlier] at hstage
    exact hstage.elim
  · cases hreplied
    exact ⟨rfl, hstage⟩

theorem cancel_late (hlate : Late call) (hcancel : call.cancel = some next) :
    Late next := by
  have hstage := hlate.2
  unfold cancel at hcancel
  split at hcancel
  · cases hcancel
    exact ⟨hlate.1, Or.inr rfl⟩
  · cases hcancel
    exact ⟨hlate.1, Or.inr rfl⟩
  · split at hcancel <;> cases hcancel
    exact ⟨hlate.1, Or.inr rfl⟩
  · rename_i hearlier
    rw [hearlier] at hstage
    exact hstage.elim
  · rename_i hearlier
    rw [hearlier] at hstage
    exact hstage.elim
  · cases hcancel

/-- A late start issues nothing and ends refused, or dropped. -/
theorem Late.unissued (hlate : Late call) : call.pending = none := by
  have hstage := hlate.2
  unfold pending
  split
  · rename_i hearlier
    rw [hearlier] at hstage
    exact hstage.elim
  · rename_i hearlier
    rw [hearlier] at hstage
    exact hstage.elim
  · exact hlate.1

end ServiceCall

end

namespace Process

/-- No statement of a start of the claim and no acknowledgement through its
record changes anything any more. -/
def ClaimSpent (rows : TaskConversion) (id : Nat) (process : Process) :
    Prop :=
  (∀ n call claim env, process.calls n = some call →
    call.request.record = some id →
    call.pending = some (.startTask claim) →
    (process.system.execute rows ⟨.startTask claim, env⟩).effects = [] ∧
      (process.system.execute rows ⟨.startTask claim, env⟩).outcome ≠
        .ok (.started true)) ∧
  ∀ k ack env, process.acks k = some ack → ack.record = some id →
    (process.system.execute rows ⟨ack.op, env⟩).effects = []

/-- Every start of the claim that is called from here on issues nothing, and
if it completes it is refused as already acknowledged. -/
def LaterStartsRefused (rows : TaskConversion) (id : Nat)
    (process : Process) : Prop :=
  ∀ later, (machine rows).Follows process later → ∀ n call,
    process.calls n = none → later.calls n = some call →
    call.request.record = some id → call.startsClaim = true →
    call.pending = none ∧ ∀ result, call.stage = .finished result →
      result = .refused call.alreadyAcknowledged ∨ result = .dropped

/-- No step of an acknowledgement through the record retires a name from here
on, unless that was its next step already. -/
def RepeatsKeepLeases (rows : TaskConversion) (id : Nat)
    (process : Process) : Prop :=
  ∀ k, (∀ ack, process.acks k = some ack →
      ∀ result, ack.stage ≠ .retiring result) →
    ∀ later after ack, (machine rows).Follows process later →
      later.acks k = some ack → ack.record = some id →
      later.step rows (.advanceAck k) = some after →
      after.memory.retired = later.memory.retired

/-- A storage-bound acknowledgement that reached `ack_task` and failed has
retired the name, or the acknowledgement of its claim is recorded. -/
def FailuresRetire (process : Process) : Prop :=
  ∀ k ack name error, process.acks k = some ack → ack.issued = true →
    ack.binding.forWorker ack.parts.ctx.lockBy = some name →
    ack.stage = .finished (.returned (.error error)) →
    process.memory.retired name = true ∨
      process.memory.isAcknowledged ack.record = true

section

variable {rows : TaskConversion} {id : Nat} {process after later : Process}
  {event : ProcessEvent}

theorem Single.claimSpent (h : Single rows id process)
    (hcommits : process.commitsOf id ≠ []) :
    process.ClaimSpent rows id := by
  obtain ⟨record, hrecord, hspent⟩ := h.spent hcommits
  constructor
  · intro n call claim env hcall hid hop
    have hpinned := h.calls n call hcall
    obtain ⟨found, hfound, hclaim, htask⟩ := hpinned.clone hid
    cases hrecord.symm.trans hfound
    cases hpinned.issuable hop with
    | start hstarts =>
        obtain ⟨token, worker, restart, hstart⟩ := hstarts
        exact hspent.start_unmatched hclaim htask hstart
  · intro k ack env hack hid
    obtain ⟨found, hfound, hclaim⟩ := h.acks k ack hack hid
    cases hrecord.symm.trans hfound
    exact (acknowledge_spends hclaim).2 hspent

/-- The marker of the record is set, and the starts called since are late. -/
structure LateStarts (id n : Nat) (process : Process) : Prop where
  done : process.memory.isAcknowledged (some id) = true
  late : ∀ call, process.calls n = some call →
    call.request.record = some id → call.startsClaim = true → call.Late

theorem startsClaim_same {call next : ServiceCall}
    (h : call.SameCall next) : next.startsClaim = call.startsClaim := by
  unfold ServiceCall.startsClaim
  rw [h.kind, h.request]

theorem LateStarts.step {n : Nat} (h : LateStarts id n process)
    (hstep : process.step rows event = some after) :
    LateStarts id n after := by
  have hmoves := step_cases hstep
  refine ⟨hmoves.grows.isAcknowledged h.done, ?_⟩
  have hcalls : ∀ m call, after.calls m = some call → m = n →
      call.request.record = some id → call.startsClaim = true →
      call.Late := by
    refine hmoves.forall_calls (P := fun m _ call => m = n →
        call.request.record = some id → call.startsClaim = true → call.Late)
      (fun _ hlate => hlate) (fun _ _ _ _ _ _ => ⟨rfl, rfl⟩) ?_ ?_ ?_ ?_ ?_ ?_
    · intro m binding parts record counter _ _ _ _ _ hstarts
      unfold ServiceCall.start at hstarts ⊢
      cases hworker : parts.ctx.lockBy with
      | none => simp [hworker, ServiceCall.startsClaim] at hstarts
      | some worker => exact ⟨rfl, trivial⟩
    · intro m fresh memory call next hlate hadvances hm hid hstarts
      have hsame := hadvances.same
      rw [hsame.request] at hid
      rw [startsClaim_same hsame] at hstarts
      exact hadvances.late (hid ▸ h.done) hstarts (hlate hm hid hstarts)
    · intro m db outcome call next hlate hreplied hm hid hstarts
      have hsame := ServiceCall.replied_same hreplied
      rw [hsame.request] at hid
      rw [startsClaim_same hsame] at hstarts
      exact ServiceCall.replied_late (hlate hm hid hstarts) hreplied
    · intro m res call hlate hstage hm hid hstarts
      have hhandling := (hlate hm hid hstarts).2
      rw [hstage] at hhandling
      exact hhandling.elim
    · intro m call next hlate hcancel hm hid hstarts
      have hsame := ServiceCall.cancel_same hcancel
      rw [hsame.request] at hid
      rw [startsClaim_same hsame] at hstarts
      exact ServiceCall.cancel_late (hlate hm hid hstarts) hcancel
    · intro m call hcall hm
      subst hm
      exact h.late call hcall
  intro call hcall
  exact hcalls n call hcall rfl

theorem laterStartsRefused
    (hdone : process.memory.isAcknowledged (some id) = true) :
    process.LaterStartsRefused rows id := by
  intro later hfollows n call hnone hcall hid hstarts
  have hlate : LateStarts id n later := hfollows.invariant (LateStarts id n)
    (fun hold hevent => hold.step hevent) ⟨hdone, fun call hcall => by
      rw [hnone] at hcall
      cases hcall⟩
  have hstands := hlate.late call hcall hid hstarts
  refine ⟨hstands.unissued, ?_⟩
  intro result hstage
  have hended := hstands.2
  rw [hstage] at hended
  exact hended

/-- The marker of the record is set, and the acknowledgement has not come to
retire a name. -/
structure KeepsLeases (id k : Nat) (process : Process) : Prop where
  done : process.memory.isAcknowledged (some id) = true
  obliged : process.ObligedAcks
  keeps : ∀ ack, process.acks k = some ack → ack.record = some id →
    ∀ result, ack.stage ≠ .retiring result

theorem KeepsLeases.step {k : Nat} (h : KeepsLeases id k process)
    (hstep : process.step rows event = some after) :
    KeepsLeases id k after := by
  have hmoves := step_cases hstep
  refine ⟨hmoves.grows.isAcknowledged h.done, h.obliged.step hstep, ?_⟩
  have hacks : ∀ m ack, after.acks m = some ack → m = k →
      ack.record = some id → ∀ result, ack.stage ≠ .retiring result := by
    refine hmoves.forall_acks (P := fun m _ ack => m = k →
        ack.record = some id → ∀ result, ack.stage ≠ .retiring result)
      (fun _ hkeeps => hkeeps) (fun _ _ _ _ _ _ _ _ _ => nofun)
      (fun _ _ _ _ _ _ _ _ => nofun) ?_ ?_ ?_ ?_
    · intro m memory ack next _ hack _ hadvances _ hid
      rw [hadvances.same.record] at hid
      exact hadvances.not_retiring (h.obliged m ack hack).claim (hid ▸ h.done)
    · intro m ack outcome hkeeps _ hm hid result
      unfold AckCall.replied at hid ⊢
      split at hid
      · exact nofun
      · exact hkeeps hm hid result
    · intro m ack next _ hcancel _ _ result
      unfold AckCall.cancel at hcancel
      split at hcancel <;> cases hcancel <;> exact nofun
    · intro m ack hack hm
      subst hm
      exact h.keeps ack hack
  intro ack hack
  exact hacks k ack hack rfl

theorem repeatsKeepLeases (hobliged : process.ObligedAcks)
    (hdone : process.memory.isAcknowledged (some id) = true) :
    process.RepeatsKeepLeases rows id := by
  intro k hstage later after ack hfollows hack hid hstep
  have hkeeps : KeepsLeases id k later := hfollows.invariant
    (KeepsLeases id k) (fun hold hevent => hold.step hevent)
    ⟨hdone, hobliged, fun ack hack _ => hstage ack hack⟩
  cases step_cases hstep with
  | advanceAck hfound hadvances =>
      cases hack.symm.trans hfound
      exact hadvances.retired (hkeeps.keeps ack hack hid)

theorem ObligedAcks.failuresRetire (h : process.ObligedAcks) :
    process.FailuresRetire := by
  intro k ack name error hack hissued hname hstage
  have howes := (h k ack hack).owes name hissued hname
  simp only [AckCall.Owes, hstage] at howes
  exact howes rfl

end

/-- In every run on clones of a recorded claim, whatever each transaction is
answered: at most one acknowledgement of the claim commits; after it no start
of the claim and no acknowledgement through the record changes the row; once
a success is recorded every later start is refused and no acknowledgement of
the claim retires a lease; and a storage-bound acknowledgement that reached
`ack_task` and failed retires the name unless an acknowledgement of the claim
is recorded by then. -/
theorem claim_acknowledged_once {rows : TaskConversion} {id : Nat}
    {process : Process}
    (h : (machine rows).FollowsWhere
      (fun state event => keepsClaim id state event = true)
      .initial process) :
    (process.commitsOf id).length ≤ 1 ∧
    (process.commitsOf id ≠ [] → process.ClaimSpent rows id) ∧
    (process.memory.isAcknowledged (some id) = true →
      process.LaterStartsRefused rows id ∧
        process.RepeatsKeepLeases rows id) ∧
    process.FailuresRetire := by
  have hsingle : Single rows id process := h.invariant (Single rows id)
    (fun hold hadmits hevent => hold.step hadmits hevent) single_initial
  have hobliged : process.ObligedAcks :=
    obligedAcks_of_reachable ⟨.initial, rfl, h.follows⟩
  refine ⟨hsingle.once, hsingle.claimSpent, ?_, hobliged.failuresRetire⟩
  intro hdone
  exact ⟨laterStartsRefused hdone, repeatsKeepLeases hobliged hdone⟩

/-- The first acknowledgement commits and is reported as failed; the second
one finds nothing to write. -/
theorem claim_acknowledged_once_unconfirmed :
    let acknowledge (k : Nat) (answer : Answer) : List ProcessEvent := [
      .ack k ⟨true, some "token"⟩ (.ok (.ok .null)) sampleClaim.parts
        (some 0), .advanceAck k, .advanceAck k, .advanceAck k,
      .ackStatement k quietEnv answer, .advanceAck k, .advanceAck k,
      .advanceAck k, .advanceAck k]
    let events : List ProcessEvent := List.flatten [sampleSetup,
      acknowledge 0 (.failed true (.pool "connection lost")),
      acknowledge 1 .answered]
    let process := ((machine TaskConversion.copying).runWhere (keepsClaim 0)
      .initial events).getD .initial
    process.writes.map AckWrite.call = [0, 1] ∧
      (process.commitsOf 0).map AckWrite.call = [0] ∧
      process.ClaimSpent TaskConversion.copying 0 ∧
      process.memory.retired "worker" = true := by
  intro acknowledge events process
  have hrun : (machine TaskConversion.copying).runWhere (keepsClaim 0)
    .initial events = some process := rfl
  have hcommits : (process.commitsOf 0).map AckWrite.call = [0] := rfl
  obtain ⟨_, hspent, _, hretire⟩ :=
    claim_acknowledged_once (Machine.followsWhere_of_run events hrun)
  refine ⟨rfl, hcommits, hspent ?_, ?_⟩
  · intro hnone
    rw [hnone] at hcommits
    cases hcommits
  · obtain ⟨ack, error, hack, hissued, hname, hstage⟩ : ∃ ack error,
      process.acks 0 = some ack ∧ ack.issued = true ∧
      ack.binding.forWorker ack.parts.ctx.lockBy = some "worker" ∧
      ack.stage = .finished (.returned (.error error)) :=
      ⟨_, _, rfl, rfl, rfl, rfl⟩
    rcases hretire 0 ack "worker" error hack hissued hname hstage with
      hretired | hdone
    · exact hretired
    · have hopen : ack.record = some 0 := by
        obtain ⟨found, hfound, hrecord⟩ : ∃ found,
          process.acks 0 = some found ∧ found.record = some 0 := ⟨_, rfl, rfl⟩
        cases hack.symm.trans hfound
        exact hrecord
      rw [hopen] at hdone
      cases hdone

/-- An acknowledgement fails without having been applied and gives back the
lock; before its obligation is dropped another acknowledgement of the claim
commits and is recorded, so the failed one retires nobody. -/
theorem failed_acknowledgement_keeps_lease :
    let reach (k : Nat) (answer : Answer) : List ProcessEvent := [
      .ack k ⟨true, some "token"⟩ (.ok (.ok .null)) sampleClaim.parts
        (some 0), .advanceAck k, .advanceAck k, .advanceAck k,
      .ackStatement k quietEnv answer, .advanceAck k]
    let events : List ProcessEvent := List.flatten [sampleSetup,
      reach 0 (.failed false (.pool "connection lost")), [.advanceAck 0],
      reach 1 .answered, [.advanceAck 0]]
    ∃ process ack,
      (machine TaskConversion.copying).run .initial events = some process ∧
      process.acks 0 = some ack ∧ ack.issued = true ∧
      ack.binding.leases = true ∧ ack.parts.ctx.lockBy = some "worker" ∧
      ack.stage = .finished (.returned (.error (.pool "connection lost"))) ∧
      process.memory.retired "worker" = false := by
  intro reach events
  exact ⟨_, _, rfl, rfl, rfl, rfl, rfl, rfl, rfl⟩

end Process

end ApalisPostgres
