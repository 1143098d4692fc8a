/-
A worker that was released stays gone.  The release retires the name before it
reaches the database, so no stream issues a call any more; and once it has
committed, whatever the calls still in flight present is refused.
-/
import ApalisPostgres.HeartbeatOrder

namespace ApalisPostgres

open RowStore

namespace Fetcher

variable {rows : TaskConversion} {config : WorkerConfig}

/-- The operation registers the name under the token. -/
def WorkerConfig.Registers (config : WorkerConfig) (op : Op) : Prop :=
  ∃ storage layers staleAfter, op = .registerWorker config.worker config.queue
    storage layers config.leaseToken staleAfter

/-- Only a registration gives the token back. -/
theorem not_carries_execute {db : Db} {op : Op} (h : ¬ Carries config db)
    (hop : ¬ config.Registers op) (env : Nat → Env) :
    ¬ Carries config ((program rows op).execute sql env db).view := by
  refine (System.execute_ensures rows ⟨db, []⟩ ⟨op, env⟩
    (P := fun view _ => ¬ Carries config view) h ?_).1
  intro stmt env view effects changes hissued hview hexec hcarries
  obtain ⟨row, hrow, htoken⟩ := hcarries _ rfl
  have hstored : ∀ old, view.workers.get? (config.worker, config.queue) =
      some old → old.leaseToken ≠ some config.leaseToken := by
    intro old hold hsame
    apply hview
    intro presented hpresented
    obtain rfl := Option.some.inj hpresented
    exact ⟨old, hold, hsame⟩
  rcases hexec.worker_cases (config.worker, config.queue) with
    ⟨change, hmem, hkey, hafter⟩ | ⟨_, hsame⟩
  · rw [hafter] at hrow
    cases hexec.workerStep hmem with
    | register =>
        obtain ⟨rfl, rfl⟩ := Prod.mk.inj hkey
        cases hissued with
        | read hread => simp [Stmt.readOnly] at hread
        | register hincumbent =>
            obtain rfl := Option.some.inj hrow
            apply hop
            cases hget : view.workers.get? (config.worker, config.queue) with
            | none =>
                rw [hget] at htoken
                exact ⟨_, _, _, by rw [← Option.some.inj htoken]⟩
            | some old =>
                rw [hget] at htoken
                exact ⟨_, _, _, by rw [← Option.some.inj htoken]⟩
    | heartbeat hget _ =>
        obtain ⟨rfl, rfl⟩ := Prod.mk.inj hkey
        obtain rfl := Option.some.inj hrow
        exact hstored _ hget htoken
    | release _ =>
        obtain rfl := Option.some.inj hrow
        cases htoken
    | admin =>
        obtain ⟨rfl, rfl⟩ := Prod.mk.inj hkey
        obtain rfl := Option.some.inj hrow
        cases hget : view.workers.get? (config.worker, config.queue) with
        | none =>
            rw [hget] at htoken
            cases htoken
        | some old =>
            rw [hget] at htoken
            exact hstored old hget htoken
    | prune _ _ _ _ => cases hrow
  · exact hstored row (hsame.symm.trans hrow) htoken

/-- A body that cannot commit is refused. -/
theorem refused_of_ensures {db : Db} {op : Op}
    (h : (program rows op).Ensures sql (fun _ _ _ => False) (fun _ => True)
      db []) (env : Nat → Env) :
    ∃ error, ((program rows op).execute sql env db).outcome =
      .error error := by
  have hstop := h.execute env
  rcases hexec : (program rows op).execute sql env db with
    ⟨view, effects, outcome⟩
  rw [hexec] at hstop
  cases outcome with
  | error error => exact ⟨error, rfl⟩
  | ok value => exact hstop.elim

theorem requireWorker_refuses {α : Type} {db : Db} {next : Unit → Tx α}
    (h : ¬ Carries config db) :
    (requireWorker config.worker config.queue (some config.leaseToken) >>=
      next).Ensures sql (fun _ _ _ => False) (fun _ => True) db [] := by
  intro env
  split
  · trivial
  · rename_i registration changes hexec
    have hplan := (exec_ok hexec).1
    simp only [Stmt.plan, Except.ok.injEq, Prod.mk.injEq] at hplan
    obtain ⟨rfl, rfl⟩ := hplan
    cases hget : db.workers.get? (config.worker, config.queue) with
    | none => trivial
    | some row =>
        have hother : tokenAccepted (some config.leaseToken) row = false := by
          rw [tokenAccepted, Option.isNone_some, Bool.false_or,
            decide_eq_false_iff_not]
          intro hsame
          apply h
          intro presented hpresented
          obtain rfl := Option.some.inj hpresented
          exact ⟨row, hget, hsame⟩
        simp only [hother, Bool.false_eq_true, if_false]
        trivial

/-- Without its registration, nothing that presents the token commits. -/
theorem owned_refused {db : Db} {op : Op} (h : ¬ Carries config db)
    (howns : config.owns op = true) (hop : ¬ config.Registers op)
    (env : Nat → Env) :
    ∃ error, ((program rows op).execute sql env db).outcome =
      .error error := by
  have hlookup : ∀ row, db.workers.get? (config.worker, config.queue) =
      some row → row.leaseToken ≠ some config.leaseToken := by
    intro row hrow hsame
    apply h
    intro presented hpresented
    obtain rfl := Option.some.inj hpresented
    exact ⟨row, hrow, hsame⟩
  apply refused_of_ensures
  cases op with
  | registerWorker worker queue storage layers token staleAfter =>
      simp only [WorkerConfig.owns, Bool.and_eq_true, decide_eq_true_eq]
        at howns
      obtain ⟨⟨rfl, rfl⟩, rfl⟩ := howns
      exact absurd ⟨storage, layers, staleAfter, rfl⟩ hop
  | keepAlive worker queue token =>
      simp only [WorkerConfig.owns, Bool.and_eq_true, decide_eq_true_eq]
        at howns
      obtain ⟨⟨rfl, rfl⟩, rfl⟩ := howns
      intro env
      split
      · trivial
      · rename_i count changes hexec
        have hplan := (exec_ok hexec).1
        simp only [Stmt.plan] at hplan
        split at hplan
        · cases hplan
          trivial
        · rename_i row hrow
          rw [if_neg (hlookup row hrow)] at hplan
          cases hplan
          trivial
  | releaseWorker queue worker token =>
      simp only [WorkerConfig.owns, Bool.and_eq_true, decide_eq_true_eq]
        at howns
      obtain ⟨⟨rfl, rfl⟩, rfl⟩ := howns
      intro env
      split
      · trivial
      · rename_i owned changes hexec
        have hplan := (exec_ok hexec).1
        simp only [Stmt.plan, Except.ok.injEq, Prod.mk.injEq] at hplan
        obtain ⟨rfl, rfl⟩ := hplan
        have hnot : (db.workers.get? (config.worker, config.queue)).any
            (fun row => row.leaseToken = some config.leaseToken) = false := by
          rw [Option.any_eq_false]
          intro row hrow
          simpa using hlookup row hrow
        rw [hnot]
        trivial
  | fetchNext worker queue bufferSize token =>
      simp only [WorkerConfig.owns, Bool.and_eq_true, decide_eq_true_eq]
        at howns
      obtain ⟨⟨rfl, rfl⟩, rfl⟩ := howns
      exact Program.ensures_bind (requireWorker_refuses h)
  | queueById queue ids worker token =>
      simp only [WorkerConfig.owns, Bool.and_eq_true, decide_eq_true_eq]
        at howns
      obtain ⟨⟨rfl, rfl⟩, rfl⟩ := howns
      exact Program.ensures_bind (requireWorker_refuses h)
  | _ => cases howns

namespace WorkerSystem

variable {system after start : WorkerSystem}

/-- The entry is a release of the worker that committed. -/
def Transacted.Releases (config : WorkerConfig) (entry : Transacted) : Prop :=
  entry.op = Work.release.op config ∧ ∃ value, entry.outcome = .ok value

/-- After a release nothing that presents the token commits, and the
registration no longer carries it. -/
def Sealed (config : WorkerConfig) (db : Db) (later : List Transacted) : Prop :=
  ∀ before entry rest, later = before ++ entry :: rest →
    Transacted.Releases config entry →
    (∀ other ∈ rest, config.owns other.op = true →
      ∃ error, other.outcome = .error error) ∧ ¬ Carries config db

/-- A transaction that registers nothing keeps the seal. -/
theorem Sealed.execute {db : Db} {later : List Transacted}
    (h : Sealed config db later) {op : Op} (hop : ¬ config.Registers op)
    (caller : Option Nat) (env : Nat → Env) :
    Sealed config ((program rows op).execute sql env db).view
      (later ++ [⟨caller, op,
        ((program rows op).execute sql env db).outcome⟩]) := by
  intro before entry rest hsplit hreleases
  rcases concat_split hsplit with ⟨rfl, rfl, rfl⟩ | ⟨fewer, rfl, hfewer⟩
  · -- the release that commits now takes the token off the registration
    refine ⟨by simp, ?_⟩
    obtain ⟨hrelease, value, houtcome⟩ := hreleases
    change op = _ at hrelease
    have hsettled := execute_settled houtcome
    subst hrelease
    obtain ⟨row, hrow, hfree⟩ := hsettled
    intro hcarries
    obtain ⟨other, hother, htoken⟩ := hcarries _ rfl
    have hsame := hrow.symm.trans hother
    obtain rfl := Option.some.inj hsame
    rw [hfree] at htoken
    cases htoken
  · obtain ⟨hrefused, hgone⟩ := h before entry fewer hfewer hreleases
    refine ⟨?_, not_carries_execute hgone hop env⟩
    intro other hother howns
    rcases List.mem_append.mp hother with hold | hnew
    · exact hrefused other hold howns
    · obtain rfl := List.mem_singleton.mp hnew
      exact owned_refused hgone howns hop env

theorem Sealed.logged {op : Op} {caller : Option Nat} {env : Nat → Env}
    (h : ∃ later, system.ledger = start.ledger ++ later ∧
      Sealed config system.db later)
    (hop : ¬ config.Registers op)
    (hdb : after.db = (system.execute rows op env).view)
    (hledger : after.ledger = system.ledger ++
      [⟨caller, op, (system.execute rows op env).outcome⟩]) :
    ∃ later, after.ledger = start.ledger ++ later ∧
      Sealed config after.db later := by
  obtain ⟨later, hlater, hsealed⟩ := h
  refine ⟨later ++ [⟨caller, op, (system.execute rows op env).outcome⟩], ?_, ?_⟩
  · rw [hledger, hlater, List.append_assoc]
  · rw [hdb]
    exact hsealed.execute hop caller env

/-- What holds from a release on: the name is retired, no startup is in flight,
and the streams issue nothing. -/
structure Gone (config : WorkerConfig) (system start : WorkerSystem) :
    Prop where
  beats : system.BeatsRenew
  retired : system.lease.retired = true
  settled : ∀ call ∈ system.calls, call.work.isStartup = true →
    call.isResolved = true
  grown : start.calls.length ≤ system.calls.length
  issued : ∀ (m : Nat) (call : Call), start.calls.length ≤ m →
    system.calls[m]? = some call → call.work = .release
  ledger : ∃ later, system.ledger = start.ledger ++ later ∧
    Sealed config system.db later

/-- A call that runs once the name is gone is no startup. -/
theorem Gone.registers (h : system.Gone config start) {n : Nat} {call : Call}
    (hcall : system.calls[n]? = some call)
    (hopen : call.isResolved = false) :
    call.work.isStartup = false ∧
      ¬ config.Registers (call.work.op config) := by
  have hkind : call.work.isStartup = false := by
    by_contra hstartup
    rw [Bool.not_eq_false] at hstartup
    rw [h.settled call (List.mem_of_getElem? hcall) hstartup] at hopen
    cases hopen
  refine ⟨hkind, ?_⟩
  rintro ⟨storage, layers, staleAfter, heq⟩
  obtain ⟨issuer, work, result⟩ := call
  cases work with
  | startup swept => cases hkind
  | claim request => cases request <;> cases heq
  | _ => cases heq

/-- A call that goes on leaves the others as they are. -/
theorem Gone.set (h : system.Gone config start) {n : Nat} {call next : Call}
    (hcall : system.calls[n]? = some call) (hgrows : call.Grows next)
    (hkind : call.work.isStartup = false) :
    (∀ found ∈ system.calls.set n next, found.work.isStartup = true →
      found.isResolved = true) ∧
    ∀ (m : Nat) (found : Call), start.calls.length ≤ m →
      (system.calls.set n next)[m]? = some found → found.work = .release := by
  constructor
  · intro found hfound hstartup
    rcases List.mem_or_eq_of_mem_set hfound with hold | rfl
    · exact h.settled found hold hstartup
    · rw [hgrows.startup, hkind] at hstartup
      cases hstartup
  · intro m found hm hfound
    rcases getElem?_set_cases hfound with ⟨rfl, rfl⟩ | hold
    · rw [hgrows.work hkind]
      exact h.issued m call hm hcall
    · exact h.issued m found hm hold

theorem Gone.step (h : system.Gone config start) {event : WorkerEvent}
    (hstep : system.step rows config event = some after) :
    after.Gone config start := by
  have hbeats := (step_leaseSystem h.beats hstep).1
  have hretired := step_retired h.beats hstep h.retired
  cases step_acts hstep with
  | issued issued hcalls hdb hledger hfresh =>
      have hnew : ∀ call ∈ issued, call.work = .release :=
        fun call hcall => (hfresh call hcall).2.2 h.retired
      refine ⟨hbeats, hretired, ?_, ?_, ?_,
        by rw [hledger, hdb]; exact h.ledger⟩
      · intro call hmem hstartup
        rw [hcalls] at hmem
        rcases List.mem_append.mp hmem with hold | hissued
        · exact h.settled call hold hstartup
        · rw [hnew call hissued] at hstartup
          cases hstartup
      · rw [hcalls, List.length_append]
        exact h.grown.trans (Nat.le_add_right _ _)
      · intro m call hm hcall
        rw [hcalls] at hcall
        rcases Nat.lt_or_ge m system.calls.length with hlt | hge
        · rw [List.getElem?_append_left hlt] at hcall
          exact h.issued m call hm hcall
        · rw [List.getElem?_append_right hge] at hcall
          exact hnew call (List.mem_of_getElem? hcall)
  | ran env hcall hopen hlease hcalls hdb hledger =>
      obtain ⟨hkind, hregisters⟩ := h.registers hcall hopen
      obtain ⟨hsettled, hissued⟩ := h.set hcall (Call.grows_advance hopen _)
        hkind
      refine ⟨hbeats, hretired, by rw [hcalls]; exact hsettled, ?_,
        by rw [hcalls]; exact hissued,
        Sealed.logged h.ledger hregisters hdb hledger⟩
      rw [hcalls, List.length_set]
      exact h.grown
  | failed disruption hcall hopen hlease hcalls hdb hledger =>
      obtain ⟨hsettled, hissued⟩ := h.set hcall
        (Call.grows_fail hopen disruption) (h.registers hcall hopen).1
      refine ⟨hbeats, hretired, by rw [hcalls]; exact hsettled, ?_,
        by rw [hcalls]; exact hissued, by rw [hledger, hdb]; exact h.ledger⟩
      rw [hcalls, List.length_set]
      exact h.grown
  | lost env disruption hcall hopen hlease hcalls hdb hledger =>
      obtain ⟨hkind, hregisters⟩ := h.registers hcall hopen
      obtain ⟨hsettled, hissued⟩ := h.set hcall
        (Call.grows_fail hopen disruption) hkind
      refine ⟨hbeats, hretired, by rw [hcalls]; exact hsettled, ?_,
        by rw [hcalls]; exact hissued,
        Sealed.logged h.ledger hregisters hdb hledger⟩
      rw [hcalls, List.length_set]
      exact h.grown
  | foreign invocation hevent hforeign hlease hcalls hdb hledger =>
      have hregisters : ¬ config.Registers invocation.op := by
        rintro ⟨storage, layers, staleAfter, heq⟩
        rw [heq] at hforeign
        simp [WorkerConfig.owns] at hforeign
      exact ⟨hbeats, hretired, by rw [hcalls]; exact h.settled,
        by rw [hcalls]; exact h.grown, by rw [hcalls]; exact h.issued,
        Sealed.logged h.ledger hregisters hdb hledger⟩

end WorkerSystem

end Fetcher

end ApalisPostgres
