/-
Admission to the handler.  A dispatch calls the inner service at most once,
and only after a statement of its own left the row `Running` under the claim
the request carries on; every dispatch that ends without the call is refused
and counted exactly once.
-/
import ApalisPostgres.MiddlewareSteps
import ApalisPostgres.UndisturbedClaims

namespace ApalisPostgres

open RowStore

/-- The entries of a log that one call made. -/
def entriesOf {α : Type} (n : Nat) (log : List (Nat × α)) : List α :=
  (log.filter fun entry => entry.1 = n).map Prod.snd

theorem entriesOf_append_self {α : Type} (n : Nat) (log : List (Nat × α))
    (item : α) :
    entriesOf n (log ++ [(n, item)]) = entriesOf n log ++ [item] := by
  simp [entriesOf]

theorem entriesOf_append_other {α : Type} {n m : Nat} (log : List (Nat × α))
    (item : α) (h : m ≠ n) :
    entriesOf n (log ++ [(m, item)]) = entriesOf n log := by
  simp [entriesOf, h]

namespace Memory

/-- The requests a dispatch passed to the inner service. -/
def handledBy (memory : Memory) (n : Nat) : List Request :=
  entriesOf n memory.handled

/-- The counters a dispatch incremented. -/
def countedBy (memory : Memory) (n : Nat) : List Counter :=
  entriesOf n memory.counted

/-- The entries of a call are the same in both memories. -/
structure SameLogs (before after : Memory) (n : Nat) : Prop where
  handled : after.handledBy n = before.handledBy n
  counted : after.countedBy n = before.countedBy n

theorem SameLogs.refl (memory : Memory) (n : Nat) :
    SameLogs memory memory n := ⟨rfl, rfl⟩

end Memory

/-- The row of the request is `Running` under the claim the request records:
its worker, its timestamp, and the count of its record. -/
def RunsUnder (db : Db) (request : Request) : Prop :=
  ∃ taskId row, request.parts.taskId = some taskId ∧
    db.jobs.get? taskId = some row ∧ row.status = .running ∧
    row.lockBy = request.worker ∧ row.lockBy.isSome = true ∧
    row.lockAt = (startLockAt request.parts).map toTimestamp ∧
    ∀ claim, request.parts.claim = some claim →
      row.attempts = claim.completed

section

variable {rows : TaskConversion} {admits : System → Op → Prop}
  {system : System}

theorem Reachable.transact {invocation : Invocation}
    (h : Reachable rows (fun _ _ => True) system) (answer : Answer) :
    Reachable rows (fun _ _ => True)
      (system.transact rows invocation answer).system := by
  cases answer with
  | answered => exact .step h invocation trivial
  | failed applied error =>
      cases applied with
      | true => exact .step h invocation trivial
      | false => exact h

/-- Whoever sees a value sees the outcome of the transaction itself. -/
theorem transact_ok {invocation : Invocation} {answer : Answer}
    {value : Outcome}
    (h : (system.transact rows invocation answer).outcome = .ok value) :
    (system.execute rows invocation).outcome = .ok value ∧
      (system.transact rows invocation answer).system =
        system.step rows invocation := by
  cases answer with
  | answered => exact ⟨h, rfl⟩
  | failed applied error =>
      cases applied with
      | true => cases h
      | false => cases h

/-- A start that matched leaves its row `Running` under its claim. -/
theorem startTask_runs {claim : StartClaim} {env : Nat → Env}
    (h : (system.execute rows ⟨.startTask claim, env⟩).outcome =
      .ok (.started true)) :
    ∃ row, Startable claim row ∧
      (system.step rows ⟨.startTask claim, env⟩).db.jobs.get? claim.taskId =
        some (startRow row) := by
  have hissues : (program rows (.startTask claim)).Issues sql
      (fun _ _ => True)
      (fun value after => value = .started true → ∃ row, Startable claim row ∧
        after.jobs.get? claim.taskId = some (startRow row)) system.db := by
    refine ⟨trivial, ?_⟩
    intro observed count changes hexec hstarted
    have hone : count = 1 := by
      simpa only [Outcome.started.injEq, decide_eq_true_eq] using hstarted
    have hplan := (exec_ok hexec).1
    simp only [Stmt.plan, Except.ok.injEq, Prod.mk.injEq] at hplan
    obtain ⟨hcount, hchanges⟩ := hplan
    obtain ⟨row, hselected⟩ := List.length_eq_one_iff.mp (hcount.trans hone)
    have hmem := hselected ▸ List.mem_singleton.mpr rfl
    obtain ⟨hstored, hkept⟩ := List.mem_filter.mp hmem
    have hmatch := startable_iff.mp (Bool.and_eq_true _ _ ▸ hkept).2
    refine ⟨row, hmatch, ?_⟩
    have hget := get?_updated hexec hchanges.symm claim.taskId
    rw [← hmatch.id, Table.get?_of_mem hstored] at hget
    rw [← hmatch.id]
    simp only [Option.map_some, hkept, if_true] at hget
    exact hget
  exact hissues.commits env h rfl

/-- A committed lock holds the claim its task was made for. -/
theorem lockTask_holds {taskId worker : String} {queue token : Option String}
    {env : Nat → Env} {task : Task}
    (h : (system.execute rows ⟨.lockTaskWithToken taskId worker queue token,
      env⟩).outcome = .ok (.tasks [task])) :
    ∃ row, ClaimHeld (system.step rows
        ⟨.lockTaskWithToken taskId worker queue token, env⟩).db worker token
          true task row ∧ task.parts.taskId = some taskId := by
  have hissues : (program rows
      (.lockTaskWithToken taskId worker queue token)).Issues sql
      (fun view stmt =>
        Issued view (.lockTaskWithToken taskId worker queue token) stmt)
      (fun value after => value = .tasks [task] → ∃ row,
        ClaimHeld after worker token true task row ∧
          task.parts.taskId = some taskId) system.db := by
    refine Program.issues_bind ((lockTaskWithToken_issues taskId worker queue
      token).mono ?_)
    intro returned after hheld heq
    cases heq
    obtain ⟨row, hrow⟩ := hheld.1 task (List.mem_singleton.mpr rfl)
    exact ⟨row, hrow, hheld.2⟩
  exact hissues.commits env h rfl

end

namespace ServiceCall

/-- Neither the inner service nor the counter was touched yet. -/
structure Idle (memory : Memory) (n : Nat) : Prop where
  handled : memory.handledBy n = []
  counted : memory.countedBy n = []

/-- The statement of the call committed for the request it passes on. -/
def Started (call : ServiceCall) (passed : Request) : Prop :=
  ∃ db, call.committed = some db ∧ RunsUnder db passed

/-- The inner service was called once. -/
structure Called (memory : Memory) (n : Nat) (call : ServiceCall) : Prop where
  counted : memory.countedBy n = []
  handled : ∃ passed, memory.handledBy n = [passed] ∧ call.Started passed

/-- A refused dispatch was counted once. -/
structure Refused (memory : Memory) (n : Nat) (call : ServiceCall) :
    Prop where
  handled : memory.handledBy n = []
  counted : call.kind = .dispatch →
    memory.countedBy n = [call.request.counter]

/-- What is known of a call that ends with the given result. -/
def Ended (memory : Memory) (n : Nat) (call : ServiceCall) :
    CallResult → Prop
  | .refused _ => Refused memory n call
  | .started => call.kind = .start ∧ Idle memory n
  | .returned _ => Called memory n call
  | .dropped => Idle memory n ∨ Called memory n call

/-- The statement of the start is the one of the request. -/
def Starting (call : ServiceCall) (claim : StartClaim) : Prop :=
  ∃ worker restart, call.request.worker = some worker ∧
    startClaim call.binding.leaseToken worker restart call.request.parts =
      .ok claim

/-- What is known of a call in each stage. -/
def Sound (memory : Memory) (n : Nat) (call : ServiceCall) : Prop :=
  match call.stage with
  | .created => Idle memory n
  | .entering | .checking _ | .attempting _ | .activating _ =>
      Idle memory n ∧ call.request.worker.isSome = true
  | .starting claim reply => Idle memory n ∧ call.Starting claim ∧
      (reply = some (.ok true) → call.Started call.request)
  | .locking taskId worker reply => Idle memory n ∧
      call.request.worker = some worker ∧
      call.request.parts.taskId = some taskId ∧
      ∀ task fresh, reply = some (.ok task) →
        call.Started (call.relocked fresh task)
  | .admitted passed => Idle memory n ∧ call.Started passed
  | .handling => Called memory n call
  | .refusing _ => Idle memory n ∧ call.kind = .dispatch
  | .settling result | .retiring result | .finished result =>
      Ended memory n call result

section

variable {memory after : Memory} {n : Nat} {call : ServiceCall}

theorem Idle.frame (h : Idle memory n) (hsame : memory.SameLogs after n) :
    Idle after n :=
  ⟨hsame.handled.trans h.handled, hsame.counted.trans h.counted⟩

theorem Called.frame (h : Called memory n call)
    (hsame : memory.SameLogs after n) : Called after n call := by
  obtain ⟨passed, hhandled, hstarted⟩ := h.handled
  exact ⟨hsame.counted.trans h.counted, passed,
    hsame.handled.trans hhandled, hstarted⟩

theorem Ended.frame {result : CallResult} (h : Ended memory n call result)
    (hsame : memory.SameLogs after n) : Ended after n call result := by
  cases result with
  | refused error =>
      refine ⟨hsame.handled.trans h.handled, ?_⟩
      intro hkind
      exact hsame.counted.trans (h.counted hkind)
  | started => exact ⟨h.1, h.2.frame hsame⟩
  | returned res => exact Called.frame h hsame
  | dropped =>
      rcases h with h | h
      · exact Or.inl (h.frame hsame)
      · exact Or.inr (h.frame hsame)

theorem Called.of_same {next : ServiceCall} (h : Called memory n call)
    (hcommitted : next.committed = call.committed) : Called memory n next := by
  obtain ⟨passed, hhandled, db, hdb, hruns⟩ := h.handled
  exact ⟨h.counted, passed, hhandled, db, hcommitted.trans hdb, hruns⟩

/-- How a call ended is not a matter of its stage or its obligation. -/
theorem Ended.of_same {next : ServiceCall} {result : CallResult}
    (h : Ended memory n call result) (hkind : next.kind = call.kind)
    (hrequest : next.request = call.request)
    (hcommitted : next.committed = call.committed) :
    Ended memory n next result := by
  cases result with
  | refused error =>
      refine ⟨h.handled, ?_⟩
      intro hdispatch
      rw [hrequest]
      exact h.counted (hkind.symm.trans hdispatch)
  | started => exact ⟨hkind.trans h.1, h.2⟩
  | returned res => exact Called.of_same h hcommitted
  | dropped =>
      rcases h with h | h
      · exact Or.inl h
      · exact Or.inr (h.of_same hcommitted)

/-- A call is not disturbed by what the others log. -/
theorem Sound.frame (h : Sound memory n call)
    (hsame : memory.SameLogs after n) : Sound after n call := by
  unfold Sound at h ⊢
  split at h
  · exact h.frame hsame
  · exact ⟨h.1.frame hsame, h.2⟩
  · exact ⟨h.1.frame hsame, h.2⟩
  · exact ⟨h.1.frame hsame, h.2⟩
  · exact ⟨h.1.frame hsame, h.2⟩
  · exact ⟨h.1.frame hsame, h.2⟩
  · exact ⟨h.1.frame hsame, h.2⟩
  · exact ⟨h.1.frame hsame, h.2⟩
  · exact Called.frame h hsame
  · exact ⟨h.1.frame hsame, h.2⟩
  · exact Ended.frame h hsame
  · exact Ended.frame h hsame
  · exact Ended.frame h hsame

/-- A call never went to its handler, or went there once. -/
theorem Sound.cases (h : Sound memory n call) :
    memory.handledBy n = [] ∨ Called memory n call := by
  have hended : ∀ result, Ended memory n call result →
      memory.handledBy n = [] ∨ Called memory n call := by
    intro result hresult
    cases result with
    | refused error => exact Or.inl hresult.handled
    | started => exact Or.inl hresult.2.handled
    | returned res => exact Or.inr hresult
    | dropped => exact hresult.imp Idle.handled id
  unfold Sound at h
  split at h
  · exact Or.inl h.handled
  · exact Or.inl h.1.handled
  · exact Or.inl h.1.handled
  · exact Or.inl h.1.handled
  · exact Or.inl h.1.handled
  · exact Or.inl h.1.handled
  · exact Or.inl h.1.handled
  · exact Or.inl h.1.handled
  · exact Or.inr h
  · exact Or.inl h.1.handled
  · exact hended _ h
  · exact hended _ h
  · exact hended _ h

theorem refuse_sound (error : Error) (guard : LeaseObligation)
    (h : Idle memory n) :
    Sound memory n ({ call with guard := guard }.refuse error) := by
  cases hkind : call.kind with
  | dispatch =>
      simp only [Sound, refuse]
      exact ⟨h, trivial⟩
  | start =>
      simp only [Sound, refuse]
      refine ⟨h.handled, ?_⟩
      intro hdispatch
      cases hdispatch

/-- Every refusal stands before the first touch of the logs. -/
theorem Refuses.idle {error : Error} (h : Refuses memory call error)
    (hsound : Sound memory n call) : Idle memory n := by
  cases h with
  | noWorker hstage _ | noTask hstage _ _ | unlocked hstage _ =>
      simpa only [Sound, hstage] using hsound
  | acknowledged hstage _ =>
      rcases hstage with ⟨hstage, _⟩ | ⟨restart, hstage⟩
      · simpa only [Sound, hstage] using hsound
      · simp only [Sound, hstage] at hsound
        exact hsound.1
  | retired hstage | incomplete hstage | notStarted hstage _
  | notLocked hstage =>
      simp only [Sound, hstage] at hsound
      exact hsound.1

theorem elim_retire_sameLogs (armed : Option String) (m : Nat) :
    memory.SameLogs (armed.elim memory memory.retire) m := by
  cases armed with
  | none => exact .refl memory m
  | some name => exact ⟨rfl, rfl⟩

theorem Advances.sameLogs {fresh m : Nat} {next : ServiceCall}
    (h : Advances n fresh memory call after next) (hother : n ≠ m) :
    memory.SameLogs after m := by
  cases h with
  | calls _ => exact ⟨entriesOf_append_other _ _ hother, rfl⟩
  | counts _ => exact ⟨rfl, entriesOf_append_other _ _ hother⟩
  | retires _ => exact elim_retire_sameLogs _ m
  | _ => exact ⟨rfl, rfl⟩

/-- The step lemma of a call. -/
theorem Advances.sound {fresh : Nat} {next : ServiceCall}
    (h : Advances n fresh memory call after next)
    (hsound : Sound memory n call) : Sound after n next := by
  cases h with
  | refuses hrefuses _ => exact refuse_sound _ _ (hrefuses.idle hsound)
  | enters hstage hworker _ _ =>
      simp only [Sound, hstage] at hsound
      exact ⟨hsound, by simp [hworker]⟩
  | locks hstage hworker htask _ =>
      simp only [Sound, hstage] at hsound
      exact ⟨hsound, hworker, htask, nofun⟩
  | reads hstage =>
      simp only [Sound, hstage] at hsound
      exact hsound
  | passes hstage _ =>
      simp only [Sound, hstage] at hsound
      exact hsound
  | attempts hstage =>
      simp only [Sound, hstage] at hsound
      exact ⟨hsound.1.frame ⟨rfl, rfl⟩, hsound.2⟩
  | issues hstage hclaim =>
      simp only [Sound, hstage] at hsound
      obtain ⟨hidle, hworker⟩ := hsound
      obtain ⟨worker, hworker⟩ := Option.isSome_iff_exists.mp hworker
      rw [hworker] at hclaim
      exact ⟨hidle, ⟨worker, _, hworker, hclaim⟩, nofun⟩
  | matched hstage _ =>
      simp only [Sound, hstage] at hsound
      exact ⟨hsound.1.frame ⟨rfl, rfl⟩, hsound.2.2 trivial⟩
  | began hstage hkind =>
      simp only [Sound, hstage] at hsound
      exact ⟨hkind, hsound.1.frame ⟨rfl, rfl⟩⟩
  | relocks hstage _ =>
      simp only [Sound, hstage] at hsound
      exact ⟨hsound.1.frame ⟨rfl, rfl⟩, hsound.2.2.2 _ _ rfl⟩
  | @calls passed hstage =>
      simp only [Sound, hstage] at hsound
      obtain ⟨hidle, hstarted⟩ := hsound
      refine ⟨hidle.counted, passed, ?_, hstarted⟩
      have hlog := entriesOf_append_self n memory.handled passed
      exact hlog.trans (congrArg (· ++ [passed]) hidle.handled)
  | counts hstage =>
      simp only [Sound, hstage] at hsound
      obtain ⟨hidle, _⟩ := hsound
      refine ⟨hidle.handled, ?_⟩
      intro _
      have hlog := entriesOf_append_self n memory.counted call.request.counter
      exact hlog.trans
        (congrArg (· ++ [call.request.counter]) hidle.counted)
  | @settles result hstage =>
      simp only [Sound, hstage] at hsound
      simp only [Sound]
      cases hguard : (call.guard.settle memory).armed.isSome with
      | true => exact hsound.of_same rfl rfl rfl
      | false => exact hsound.of_same rfl rfl rfl
  | @retires result hstage =>
      simp only [Sound, hstage] at hsound
      have hended : Ended memory n { call with
          guard := call.guard.disarm
          stage := .finished result } result := hsound.of_same rfl rfl rfl
      exact hended.frame (elim_retire_sameLogs _ n)

/-- What is known of a call is not a matter of what it left behind. -/
theorem Sound.detach (h : Sound memory n call) (detached : Option Op) :
    Sound memory n { call with detached := detached } := by
  unfold Sound at h ⊢
  dsimp only
  split at h
  · exact h
  · exact h
  · exact h
  · exact h
  · exact h
  · exact h
  · exact h
  · exact h
  · exact Called.of_same h rfl
  · exact h
  · exact Ended.of_same h rfl rfl rfl
  · exact Ended.of_same h rfl rfl rfl
  · exact Ended.of_same h rfl rfl rfl

theorem cancel_sound {next : ServiceCall} (hcancel : call.cancel = some next)
    (hsound : Sound memory n call) : Sound memory n next := by
  unfold cancel at hcancel
  split at hcancel
  · rename_i hstage
    cases hcancel
    simp only [Sound, hstage] at hsound
    exact Or.inl hsound
  · rename_i hstage
    cases hcancel
    simp only [Sound, hstage] at hsound
    exact Or.inr (hsound.of_same rfl)
  · rename_i restart hstage
    split at hcancel
    · cases hcancel
      simp only [Sound, hstage] at hsound
      exact Or.inl hsound.1
    · cases hcancel
  · rename_i claim reply hstage
    cases hcancel
    simp only [Sound, hstage] at hsound
    exact Or.inl hsound.1
  · rename_i taskId worker reply hstage
    cases hcancel
    simp only [Sound, hstage] at hsound
    exact Or.inl hsound.1
  · cases hcancel

end

section

variable {rows : TaskConversion} {memory : Memory} {n : Nat}
  {call next : ServiceCall} {system : System} {answer : Answer} {op : Op}
  {env : Nat → Env}

/-- The row a matched start left runs under the claim of its request. -/
theorem Starting.runsUnder {claim : StartClaim}
    (h : call.Starting claim)
    (hstarted : (system.execute rows ⟨.startTask claim, env⟩).outcome =
      .ok (.started true)) :
    RunsUnder (system.step rows ⟨.startTask claim, env⟩).db call.request := by
  obtain ⟨worker, restart, hworker, hclaim⟩ := h
  have hstarts := startClaim_ok hclaim
  have hissued := startClaim_worker hclaim
  obtain ⟨row, hmatch, hget⟩ := startTask_runs hstarted
  refine ⟨claim.taskId, startRow row, hstarts.taskId, hget, rfl, ?_, ?_, ?_,
    ?_⟩
  · rw [hworker, ← hissued]
    exact hmatch.lockBy
  · have howner : (startRow row).lockBy = some claim.workerId := hmatch.lockBy
    rw [howner]
    rfl
  · rw [hstarts.lockAt]
    exact hmatch.lockAt
  · intro record hrecord
    have hcount := (hstarts.recorded record hrecord).1
    have hattempts : claim.attempts = some row.attempts := by
      rcases hmatch.attempts with hnone | hsome
      · rw [hnone] at hcount
        cases hcount
      · exact hsome
    exact Option.some.inj (hattempts.symm.trans hcount)

/-- The row a lock left runs under the claim it recorded. -/
theorem relocked_runsUnder {taskId worker : String} {task : Task}
    (hworker : call.request.worker = some worker)
    (htask : call.request.parts.taskId = some taskId)
    (hreachable : Reachable rows (fun _ _ => True) system)
    (hlocked : (system.execute rows ⟨.lockTaskWithToken taskId worker
      call.request.parts.ctx.queue call.binding.leaseToken, env⟩).outcome =
        .ok (.tasks [task])) (fresh : Nat) :
    RunsUnder (system.step rows ⟨.lockTaskWithToken taskId worker
      call.request.parts.ctx.queue call.binding.leaseToken, env⟩).db
        (call.relocked fresh task) := by
  obtain ⟨row, hheld, hid⟩ := lockTask_holds hlocked
  have hstands := hheld.standing (.step hreachable _ trivial)
  obtain ⟨seconds, hlockAt, hparts, hcount, _⟩ := hstands.epoch
  have hrow : row.id = taskId :=
    Option.some.inj (hheld.claimed.copies.taskId.symm.trans hid)
  have hget := hstands.get?
  rw [hrow] at hget
  refine ⟨taskId, row, htask, hget, hheld.status, ?_, ?_, ?_, ?_⟩
  · exact hheld.lockBy.trans hworker.symm
  · rw [hheld.lockBy]
    rfl
  · simp [startLockAt, relocked, recordClaim, hparts, hlockAt]
  · intro claim hclaim
    have hcompleted : claim.completed = task.parts.attempt := by
      simp only [relocked, recordClaim, Option.some.injEq] at hclaim
      rw [← hclaim]
    rw [hcompleted]
    exact hcount.symm

/-- The answer of its statement. -/
theorem replied_sound (hreachable : Reachable rows (fun _ _ => True) system)
    (hop : call.pending = some op)
    (hreplied : call.replied
      (system.transact rows ⟨op, env⟩ answer).system.db
      (system.transact rows ⟨op, env⟩ answer).outcome = some next)
    (hsound : Sound memory n call) : Sound memory n next := by
  unfold replied at hreplied
  dsimp only at hreplied
  split at hreplied
  · rename_i claim hstage
    simp only [pending, hstage, Option.some.injEq] at hop
    subst hop
    simp only [Sound, hstage] at hsound
    obtain ⟨hidle, hstarting, _⟩ := hsound
    split at hreplied
    · rename_i matched houtcome
      obtain ⟨hstarted, hsystem⟩ := transact_ok houtcome
      cases hreplied
      refine ⟨hidle, hstarting, ?_⟩
      intro hmatched
      simp only [Option.some.injEq, Except.ok.injEq] at hmatched
      subst hmatched
      refine ⟨_, ?_, hstarting.runsUnder hstarted⟩
      simp only [houtcome, hsystem]
    · cases hreplied
      exact ⟨hidle, hstarting, nofun⟩
    · cases hreplied
  · rename_i taskId worker hstage
    simp only [pending, hstage, Option.some.injEq] at hop
    subst hop
    simp only [Sound, hstage] at hsound
    obtain ⟨hidle, hworker, htask, _⟩ := hsound
    split at hreplied
    · rename_i task houtcome
      obtain ⟨hlocked, hsystem⟩ := transact_ok houtcome
      cases hreplied
      refine ⟨hidle, hworker, htask, ?_⟩
      intro returned fresh hreturned
      simp only [Option.some.injEq, Except.ok.injEq] at hreturned
      subst hreturned
      refine ⟨_, ?_, relocked_runsUnder hworker htask hreachable hlocked
        fresh⟩
      simp only [houtcome, hsystem]
    · cases hreplied
      exact ⟨hidle, hworker, htask, nofun⟩
    · cases hreplied
  · cases hreplied
    exact hsound.detach none

end

end ServiceCall

namespace Process

/-- The invariant: the database is reachable, and every call is sound. -/
structure Admission (rows : TaskConversion) (process : Process) : Prop where
  reachable : Reachable rows (fun _ _ => True) process.system
  absent : ∀ n, process.calls n = none → ServiceCall.Idle process.memory n
  sound : ∀ n call, process.calls n = some call →
    ServiceCall.Sound process.memory n call

section

variable {rows : TaskConversion} {process after : Process}

theorem admission_initial : Admission rows .initial where
  reachable := .initial
  absent _ _ := ⟨rfl, rfl⟩
  sound _ _ hcall := by cases hcall

/-- Whoever logs nothing and moves no call keeps the invariant. -/
theorem Admission.frame (h : Admission rows process)
    (hreachable : Reachable rows (fun _ _ => True) after.system)
    (hcalls : after.calls = process.calls)
    (hsame : ∀ n, process.memory.SameLogs after.memory n) :
    Admission rows after where
  reachable := hreachable
  absent n hnone := by
    rw [hcalls] at hnone
    exact (h.absent n hnone).frame (hsame n)
  sound n call hcall := by
    rw [hcalls] at hcall
    exact (h.sound n call hcall).frame (hsame n)

/-- One call moves, and logs for itself at most. -/
theorem Admission.setCall {n : Nat} {next : ServiceCall}
    (h : Admission rows process)
    (hreachable : Reachable rows (fun _ _ => True) after.system)
    (hcalls : after.calls = process.calls)
    (hsame : ∀ m, n ≠ m → process.memory.SameLogs after.memory m)
    (hsound : ServiceCall.Sound after.memory n next) :
    Admission rows (after.setCall n next) where
  reachable := hreachable
  absent m hnone := by
    rw [setCall_calls, hcalls] at hnone
    split at hnone
    · cases hnone
    · rename_i hother
      exact (h.absent m hnone).frame (hsame m (Ne.symm hother))
  sound m call hcall := by
    rw [setCall_calls, hcalls] at hcall
    split at hcall
    · rename_i hself
      cases hcall
      rw [hself]
      exact hsound
    · rename_i hother
      exact (h.sound m call hcall).frame (hsame m (Ne.symm hother))

theorem start_sound {memory : Memory} {n : Nat} {binding : Binding}
    {parts : Parts} {record : Option Nat} {counter : Counter}
    (h : ServiceCall.Idle memory n) :
    ServiceCall.Sound memory n
      (ServiceCall.start memory binding parts record counter) := by
  unfold ServiceCall.start
  cases hworker : parts.ctx.lockBy with
  | none =>
      refine ⟨h.handled, ?_⟩
      intro hkind
      cases hkind
  | some worker => exact ⟨h, rfl⟩

theorem ack_sameLogs {k : Nat} {memory later : Memory} {ack next : AckCall}
    (h : ack.Advances k memory later next) (n : Nat) :
    memory.SameLogs later n := by
  cases h with
  | retires _ => exact ServiceCall.elim_retire_sameLogs _ n
  | _ => exact ⟨rfl, rfl⟩

/-- The step lemma. -/
theorem Admission.step {event : ProcessEvent} (h : Admission rows process)
    (hstep : process.step rows event = some after) :
    Admission rows after := by
  have hsame : ∀ n, process.memory.SameLogs process.memory n := fun n =>
    .refl process.memory n
  cases step_cases hstep with
  | database invocation =>
      exact h.frame (.step h.reachable invocation trivial) rfl hsame
  | claimed _ => exact h.frame h.reachable rfl fun _ => ⟨rfl, rfl⟩
  | retired name => exact h.frame h.reachable rfl fun _ => ⟨rfl, rfl⟩
  | dispatch hfree _ =>
      exact h.setCall h.reachable rfl (fun m _ => hsame m)
        (h.absent _ hfree)
  | start hfree _ =>
      exact h.setCall h.reachable rfl (fun m _ => hsame m)
        (start_sound (h.absent _ hfree))
  | advance hcall hadvances =>
      exact h.setCall h.reachable rfl (fun m hm => hadvances.sameLogs hm)
        (hadvances.sound (h.sound _ _ hcall))
  | statement hcall hop _ hreplied =>
      exact h.setCall (h.reachable.transact _) rfl (fun m _ => hsame m)
        (ServiceCall.replied_sound h.reachable hop hreplied
          (h.sound _ _ hcall))
  | returned hcall hstage =>
      have hsound := h.sound _ _ hcall
      simp only [ServiceCall.Sound, hstage] at hsound
      exact h.setCall h.reachable rfl (fun m _ => hsame m)
        (hsound.of_same rfl)
  | cancel hcall hcancel =>
      exact h.setCall h.reachable rfl (fun m _ => hsame m)
        (ServiceCall.cancel_sound hcancel (h.sound _ _ hcall))
  | ack _ _ => exact h.frame h.reachable rfl hsame
  | ackOutcome _ _ _ => exact h.frame h.reachable rfl hsame
  | advanceAck _ hadvances =>
      exact h.frame h.reachable rfl (ack_sameLogs hadvances)
  | ackStatement _ _ hended =>
      subst hended
      exact h.frame (h.reachable.transact _) rfl hsame
  | cancelAck _ _ => exact h.frame h.reachable rfl hsame

theorem admission_of_reachable (h : (machine rows).Reachable process) :
    Admission rows process :=
  h.invariant (Admission rows) (fun hinitial => hinitial ▸ admission_initial)
    (fun hold hevent => hold.step hevent)

end

/-- A dispatch calls the inner service at most once, and only after its own
start or lock committed and left the row `Running` under the claim the
passed request records.  One that completes without the call ends with a
refusal and has incremented the counter of its task exactly once; one that
made the call has not incremented it. -/
theorem dispatch_admitted_once {rows : TaskConversion} {process : Process}
    (h : (machine rows).Reachable process) {n : Nat} {call : ServiceCall}
    (hcall : process.calls n = some call) (hkind : call.kind = .dispatch) :
    (process.memory.handledBy n).length ≤ 1 ∧
    (∀ passed ∈ process.memory.handledBy n, ∃ db,
      call.committed = some db ∧ RunsUnder db passed) ∧
    (process.memory.handledBy n ≠ [] → process.memory.countedBy n = []) ∧
    ∀ result, call.stage = .finished result → result ≠ .dropped →
      process.memory.handledBy n = [] →
      ∃ error, result = .refused error ∧
        process.memory.countedBy n = [call.request.counter] := by
  have hsound := (admission_of_reachable h).sound n call hcall
  have hcases := hsound.cases
  refine ⟨?_, ?_, ?_, ?_⟩
  · rcases hcases with hnone | hcalled
    · simp [hnone]
    · obtain ⟨passed, hhandled, _⟩ := hcalled.handled
      simp [hhandled]
  · intro passed hpassed
    rcases hcases with hnone | hcalled
    · simp [hnone] at hpassed
    · obtain ⟨only, hhandled, hstarted⟩ := hcalled.handled
      rw [hhandled, List.mem_singleton] at hpassed
      rw [hpassed]
      exact hstarted
  · intro hsome
    rcases hcases with hnone | hcalled
    · exact absurd hnone hsome
    · exact hcalled.counted
  · intro result hstage hcomplete hnone
    simp only [ServiceCall.Sound, hstage] at hsound
    cases result with
    | refused error => exact ⟨error, rfl, hsound.counted hkind⟩
    | started => cases hkind.symm.trans hsound.1
    | returned res =>
        obtain ⟨passed, hhandled, _⟩ := hsound.handled
        rw [hnone] at hhandled
        cases hhandled
    | dropped => exact absurd rfl hcomplete

/-- A claimed task of the sample worker. -/
def sampleClaim : Request :=
  ⟨some "worker", recordClaim ⟨some sampleId, ⟨2, some 1, some "worker",
    some "queue"⟩, 0, none⟩, some 0, .given 0⟩

/-- The worker registers, the task is pushed and claimed, and the claim is
recorded. -/
def sampleSetup : List ProcessEvent := [
  .database ⟨.registerWorker "worker" "queue" storageName "" "token" 30,
    quietEnv⟩,
  .database ⟨.pushTasksOnConn "queue" [sampleTask], quietEnv⟩,
  .database ⟨.fetchNext "worker" "queue" 10 (some "token"), quietEnv⟩,
  .claimed 0 ⟨some sampleId, some 1, 0⟩]

/-- The claim is dispatched up to its handler. -/
theorem dispatch_admitted_once_preclaimed :
    let events : List ProcessEvent := List.flatten [sampleSetup, [
      .dispatch 0 ⟨true, some "token"⟩ sampleClaim,
      .advance 0 1, .advance 0 1, .advance 0 1, .advance 0 1, .advance 0 1,
      .statement 0 quietEnv .answered, .advance 0 1, .advance 0 1]]
    let process := ((machine TaskConversion.copying).run .initial
      events).getD .initial
    process.memory.handledBy 0 = [sampleClaim] ∧
      process.memory.countedBy 0 = [] := by
  intro events process
  have hrun : (machine TaskConversion.copying).run .initial events =
    some process := rfl
  have hreachable : (machine TaskConversion.copying).Reachable process :=
    ⟨.initial, rfl, Machine.follows_of_run events hrun⟩
  have hhandled : process.memory.handledBy 0 = [sampleClaim] := rfl
  obtain ⟨call, hcall, hkind⟩ : ∃ call, process.calls 0 = some call ∧
    call.kind = .dispatch := ⟨_, rfl, rfl⟩
  refine ⟨hhandled, ?_⟩
  apply (dispatch_admitted_once hreachable hcall hkind).2.2.1
  rw [hhandled]
  exact List.cons_ne_nil _ _

end Process

end ApalisPostgres
