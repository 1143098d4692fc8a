/-
Attempt accounting.  One statement stores a count its caller computed, the
others increment in the database with a bound; the two agree, because every
guard pins the count and every active row has an attempt left.
-/
import ApalisPostgres.RowInvariant

namespace ApalisPostgres

open RowStore

/-- The committed changes that consume an attempt: acknowledgements,
undecodable releases, quarantines, and recoveries except those that hand an
unstarted claim back on release. -/
def chargesAttempt (change : JobChange) : Bool :=
  match change.tag with
  | .acknowledge | .undecodable | .quarantine => true
  | .recovery .release => change.before.any fun row => row.status = .running
  | .recovery _ => true
  | _ => false

/-- Follow one row through its changes; an enqueue begins its history. -/
def chargeStep (id : String) (charges : List JobChange)
    (change : JobChange) : List JobChange :=
  if change.key = id then
    if change.tag = .enqueue then []
    else if chargesAttempt change then charges ++ [change]
    else charges
  else charges

/-- The charging events of a row since it was enqueued, oldest first. -/
def rowCharges (id : String) (history : List Effect) : List JobChange :=
  (jobChanges history).foldl (chargeStep id) []

def attemptsBefore (change : JobChange) : Option Int :=
  change.before.map JobRow.attempts

theorem foldl_chargeStep_of_not_mem {id : String} {changes : List JobChange}
    (hnot : id ∉ changes.map RowChange.key) (charges : List JobChange) :
    changes.foldl (chargeStep id) charges = charges := by
  induction changes generalizing charges with
  | nil => rfl
  | cons change rest ih =>
      simp only [List.map_cons, List.mem_cons, not_or] at hnot
      rw [List.foldl_cons, chargeStep, if_neg (Ne.symm hnot.1)]
      exact ih hnot.2 charges

/-- Of changes that name each row once, a row sees its own. -/
theorem foldl_chargeStep_of_mem {changes : List JobChange}
    (hnodup : (changes.map RowChange.key).Nodup) {change : JobChange}
    (hmem : change ∈ changes) (charges : List JobChange) :
    changes.foldl (chargeStep change.key) charges =
      chargeStep change.key charges change := by
  induction changes generalizing charges with
  | nil => cases hmem
  | cons head rest ih =>
      simp only [List.map_cons, List.nodup_cons] at hnodup
      rw [List.foldl_cons]
      rcases List.mem_cons.mp hmem with rfl | hmem
      · exact foldl_chargeStep_of_not_mem hnodup.1 _
      · have hne : head.key ≠ change.key := by
          intro heq
          exact hnodup.1 (heq ▸ List.mem_map_of_mem hmem)
        have hhead : chargeStep change.key charges head = charges := by
          rw [chargeStep, if_neg hne]
        rw [hhead]
        exact ih hnodup.2 hmem charges

theorem rowCharges_append (id : String) (history changes : List Effect) :
    rowCharges id (history ++ changes) =
      (jobChanges changes).foldl (chargeStep id) (rowCharges id history) := by
  simp [rowCharges]

section

variable {env : Env} {view : Db} {op : Op} {stmt : Stmt} {change : JobChange}
  {old new : JobRow}

/-- A charged row is active, so it has an attempt left. -/
theorem JobStep.charged_active (h : JobStep env view stmt change)
    (hissued : Issued view op stmt) (hbefore : change.before = some old)
    (hcharges : chargesAttempt change = true) : old.active = true := by
  cases h with
  | enqueue _ _ => cases hbefore
  | pollClaim _ | notifyClaim _ _ | compatibilityClaim _ | lock _ _ _
  | start _ _ _ _ | purge _ _ _ _ => cases hcharges
  | quarantine hrow =>
      cases hbefore
      obtain ⟨worker, queue, row, hfresh, hid, _⟩ := hissued.quarantine_inv
      have hsame := Db.row_unique hfresh.stored hrow hid
      subst hsame
      simp [JobRow.active, hfresh.status]
  | undecodable _ hepoch =>
      cases hbefore
      exact (epochMatches_iff.mp hepoch).2.1
  | acknowledge _ hepoch =>
      cases hbefore
      exact (acknowledgeable_iff.mp hepoch).2.2.1
  | recovery _ _ hactive _ _ =>
      cases hbefore
      exact hactive

/-- A change adds one attempt if it is charged, and none otherwise. -/
theorem JobStep.attempts_eq (h : JobStep env view stmt change)
    (hissued : Issued view op stmt)
    (hview : ∀ row ∈ view.jobs.rows, row.Budgeted)
    (hbefore : change.before = some old) (hafter : change.after = some new) :
    new.attempts =
      old.attempts + if chargesAttempt change then 1 else 0 := by
  have hstored : old ∈ view.jobs.rows :=
    Table.mem_of_get? (h.reads.before_eq.symm.trans hbefore)
  have hincrement : chargesAttempt change = true →
      boundedIncrement old = old.attempts + 1 := by
    intro hcharges
    have hbudget := (hview old hstored).active
      (h.charged_active hissued hbefore hcharges)
    simp only [boundedIncrement]
    omega
  cases h with
  | enqueue _ _ => cases hbefore
  | pollClaim _ | notifyClaim _ _ | compatibilityClaim _ | lock _ _ _
  | start _ _ _ _ =>
      cases hbefore
      cases hafter
      exact (add_zero _).symm
  | quarantine _ | undecodable _ _ =>
      cases hbefore
      cases hafter
      exact hincrement rfl
  | acknowledge _ hepoch =>
      cases hbefore
      cases hafter
      cases hissued with
      | read hread => simp [Stmt.readOnly] at hread
      | ackTask hupdate _ =>
          have hstarted := (acknowledgeable_iff.mp hepoch).2.2.2.2.2
          have hpinned := hupdate.startedAttempts
          simp only [ackRow, chargesAttempt, ↓reduceIte]
          omega
  | @recovery _ _ _ reason _ _ _ _ _ _ =>
      cases hbefore
      cases hafter
      have hcharged : chargesAttempt ⟨old.id, .recovery reason, some old,
          some (recoverRow env.now reason old)⟩ = charged reason old := by
        cases reason <;>
          simp [chargesAttempt, charged, Recovery.chargesUnstarted]
      rw [hcharged] at hincrement ⊢
      cases hcase : charged reason old with
      | true => simpa [recoverRow, nextAttempts, hcase] using hincrement hcase
      | false => simp [recoverRow, nextAttempts, hcase]
  | purge _ _ _ _ => cases hafter

end

/-- The books of a run: each row was charged once at every count below its
own, and every change adds what it is charged. -/
structure Accounted (view : Db) (history : List Effect) : Prop where
  budgeted : view.Budgeted
  charges : ∀ row ∈ view.jobs.rows,
    (rowCharges row.id history).map attemptsBefore =
      (List.range row.attempts.toNat).map
        fun count : Nat => some (count : Int)
  changes : ∀ change ∈ jobChanges history, ∀ old new,
    change.before = some old → change.after = some new →
      new.attempts = old.attempts + (if chargesAttempt change then 1 else 0) ∧
        (chargesAttempt change = true →
          boundedIncrement old = old.attempts + 1)

/-- One statement keeps the books. -/
theorem Accounted.step {env : Env} {view : Db} {op : Op} {stmt : Stmt}
    {history changes : List Effect} (h : Accounted view history)
    (hissued : Issued view op stmt) (hexec : Executed env view stmt changes) :
    Accounted (view.apply changes) (history ++ changes) := by
  refine ⟨hexec.budgeted hissued h.budgeted, ?_, ?_⟩
  · intro row hrow
    rw [rowCharges_append]
    rcases hexec.row_cases hrow with ⟨change, hmem, hafter⟩ | ⟨hold, hnot⟩
    · have hstep := hexec.jobStep hmem
      have hkey := hstep.reads.key_eq row hafter
      rw [hkey, foldl_chargeStep_of_mem hexec.jobKeys hmem, chargeStep,
        if_pos rfl]
      cases hbefore : change.before with
      | none =>
          rw [if_pos (hstep.enqueue_iff.mpr hbefore)]
          cases hstep with
          | enqueue _ _ =>
              cases hafter
              rfl
          | pollClaim _ | notifyClaim _ _ | compatibilityClaim _
          | quarantine _ | lock _ _ _ | undecodable _ _ | start _ _ _ _
          | acknowledge _ _ | recovery _ _ _ _ _ | purge _ _ _ _ =>
              cases hbefore
      | some old =>
          have hstored : old ∈ view.jobs.rows := Table.mem_of_get?
            (hstep.reads.before_eq.symm.trans hbefore)
          have htag : change.tag ≠ .enqueue := by
            rw [Ne, hstep.enqueue_iff, hbefore]
            simp
          have hid := (hstep.fixed_columns hbefore hafter).1
          have hattempts := hstep.attempts_eq hissued h.budgeted.rows hbefore
            hafter
          have hnonneg := (h.budgeted.rows old hstored).attempts_nonneg
          have hcharges := h.charges old hstored
          rw [← hkey, hid, if_neg htag]
          cases hcase : chargesAttempt change with
          | false =>
              rw [hcase] at hattempts
              simp only [Bool.false_eq_true, ↓reduceIte, add_zero] at hattempts
              rw [if_neg (by simp), hattempts]
              exact hcharges
          | true =>
              rw [hcase] at hattempts
              simp only [↓reduceIte] at hattempts
              have hnext : row.attempts.toNat = old.attempts.toNat + 1 := by
                omega
              have hlast : attemptsBefore change =
                  some (old.attempts.toNat : Int) := by
                simp only [attemptsBefore, hbefore, Option.map_some,
                  Option.some.injEq]
                omega
              rw [if_pos rfl, List.map_append, hcharges, hnext,
                List.range_succ, List.map_append, List.map_singleton,
                List.map_singleton, hlast]
    · rw [foldl_chargeStep_of_not_mem hnot]
      exact h.charges row hold
  · intro change hmem old new hbefore hafter
    rw [jobChanges_append, List.mem_append] at hmem
    rcases hmem with hmem | hmem
    · exact h.changes change hmem old new hbefore hafter
    · have hstep := hexec.jobStep hmem
      refine ⟨hstep.attempts_eq hissued h.budgeted.rows hbefore hafter, ?_⟩
      intro hcharges
      have hstored : old ∈ view.jobs.rows := Table.mem_of_get?
        (hstep.reads.before_eq.symm.trans hbefore)
      have hbudget := (h.budgeted.rows old hstored).active
        (hstep.charged_active hissued hbefore hcharges)
      simp only [boundedIncrement]
      omega

variable {rows : TaskConversion}

theorem Reachable.accounted {admits : System → Op → Prop} {system : System}
    (h : Reachable rows admits system) :
    Accounted system.db system.history := by
  induction h with
  | initial =>
      refine ⟨Db.budgeted_empty, ?_, ?_⟩
      · intro row hrow
        cases hrow
      · intro change hmem
        cases hmem
  | @step system hsystem invocation hadmits ih =>
      rw [System.step_history]
      exact (System.execute_ensures rows system invocation
        (P := fun view effects => Accounted view (system.history ++ effects))
        (by simpa using ih)
        (fun stmt env view effects changes hissued hview hexec => by
          rw [← List.append_assoc]
          exact hview.step hissued hexec)).1

/-- In every run, whatever parts are acknowledged, the stored count of a row
is the number of its charging events; they happened at distinct counts, never
more than its budget, and no increment was ever clipped. -/
theorem attempts_eq_charges {admits : System → Op → Prop} {system : System}
    (h : Reachable rows admits system) :
    (∀ row ∈ system.db.jobs.rows,
      row.attempts = ((rowCharges row.id system.history).length : Int) ∧
      ((rowCharges row.id system.history).map attemptsBefore).Nodup ∧
      ((rowCharges row.id system.history).length : Int) ≤ row.maxAttempts) ∧
    ∀ change ∈ jobChanges system.history, ∀ old new,
      change.before = some old → change.after = some new →
        new.attempts =
            old.attempts + (if chargesAttempt change then 1 else 0) ∧
          (chargesAttempt change = true →
            boundedIncrement old = old.attempts + 1) := by
  have haccounted := h.accounted
  refine ⟨?_, haccounted.changes⟩
  intro row hrow
  have hcharges := haccounted.charges row hrow
  have hbudgeted := haccounted.budgeted.rows row hrow
  have hnonneg := hbudgeted.attempts_nonneg
  have hle := hbudgeted.attempts_le
  have hlength : (rowCharges row.id system.history).length =
      row.attempts.toNat := by
    simpa using congrArg List.length hcharges
  refine ⟨by omega, ?_, by omega⟩
  rw [hcharges]
  apply List.Nodup.map _ List.nodup_range
  intro first second heq
  exact Int.ofNat.inj (Option.some.inj heq)

/-- A claim is handed back uncharged, claimed again and acknowledged with
manual parts: one charging event, one attempt. -/
theorem attempts_eq_charges_released :
    let parts : Parts :=
      ⟨some sampleId, ⟨2, some 1, some "worker", some "queue"⟩, 1, none⟩
    let calls : List Invocation := [
      ⟨.registerWorker "worker" "queue" storageName "" "first" 30, quietEnv⟩,
      ⟨.pushTasksOnConn "queue" [sampleTask], quietEnv⟩,
      ⟨.fetchNext "worker" "queue" 10 (some "first"), quietEnv⟩,
      ⟨.releaseWorker "queue" "worker" "first", quietEnv⟩,
      ⟨.registerWorker "worker" "queue" storageName "" "second" 30, quietEnv⟩,
      ⟨.fetchNext "worker" "queue" 10 (some "second"), quietEnv⟩,
      ⟨.acknowledge (some "second") (.err "failed") parts, quietEnv⟩]
    let system := calls.foldl (System.step TaskConversion.copying) .initial
    (system.db.jobs.rows.map fun row => (row.status, row.attempts)) =
        [(.failed, 1)] ∧
      ∀ row ∈ system.db.jobs.rows,
        row.attempts = ((rowCharges row.id system.history).length : Int) := by
  intro parts calls system
  refine ⟨by decide +kernel, ?_⟩
  have hsystem : Reachable TaskConversion.copying (fun _ _ => True) system :=
    .step (.step (.step (.step (.step (.step (.step .initial _ trivial)
      _ trivial) _ trivial) _ trivial) _ trivial) _ trivial) _ trivial
  intro row hrow
  exact ((attempts_eq_charges hsystem).1 row hrow).1

end ApalisPostgres
