/-
Who owns an active row.  The token of a registration changes by insertion,
takeover, refresh, release, admin upsert and deletion; each of these either
leaves the token alone or runs when no claim of the name is active.
-/
import ApalisPostgres.RowInvariant

namespace ApalisPostgres

open RowStore

/-- The token a claim operation presented. -/
def Op.claimToken : Op → Option String
  | .fetchNext _ _ _ token => token
  | .queueById _ _ _ token => token
  | .lockTaskWithToken _ _ _ token => token
  | _ => none

/-- The changes by which a name becomes the owner of a row. -/
def takesRow (change : JobChange) : Bool :=
  match change.tag with
  | .pollClaim | .notifyClaim | .compatibilityClaim | .lock => true
  | _ => false

def takenIn (effects : List Effect) (id : String) : Bool :=
  (jobChanges effects).any fun change => change.key = id && takesRow change

/-- The token after a transaction that may have taken the row. -/
def tokenAfter (token : Option String) (id : String) (op : Op)
    (effects : List Effect) : Option String :=
  if takenIn effects id then op.claimToken else token

/-- The token under which the row was last claimed. -/
def claimedUnder (commits : List Commit) (id : String) : Option String :=
  commits.foldl (fun token commit =>
    tokenAfter token id commit.op commit.effects) none

/-- An active row names a registration that carries this token. -/
def OwnedUnder (view : Db) (row : JobRow) (token : Option String) : Prop :=
  ∃ worker owner presented, row.lockBy = some worker ∧
    view.workers.get? (worker, row.jobType) = some owner ∧
    owner.leaseToken = some presented ∧ token = some presented

/-- Every active row is owned under the token of its claim. -/
def Owned (commits : List Commit) (op : Op) (view : Db)
    (effects : List Effect) : Prop :=
  ∀ row ∈ view.jobs.rows, row.active = true →
    OwnedUnder view row
      (tokenAfter (claimedUnder commits row.id) row.id op effects)

theorem takenIn_append (first second : List Effect) (id : String) :
    takenIn (first ++ second) id = (takenIn first id || takenIn second id) := by
  simp [takenIn]

theorem takenIn_of_not_mem {changes : List Effect} {id : String}
    (hnot : id ∉ (jobChanges changes).map RowChange.key) :
    takenIn changes id = false := by
  rw [takenIn, List.any_eq_false]
  intro change hmem htaken
  simp only [Bool.and_eq_true, decide_eq_true_eq] at htaken
  exact hnot (List.mem_map.mpr ⟨change, hmem, htaken.1⟩)

section

variable {env : Env} {view : Db} {op : Op} {stmt : Stmt}
  {changes : List Effect}

theorem Executed.takenIn_eq (h : Executed env view stmt changes)
    {change : JobChange} (hmem : change ∈ jobChanges changes) :
    takenIn changes change.key = takesRow change := by
  cases htakes : takesRow change with
  | true =>
      rw [takenIn, List.any_eq_true]
      exact ⟨change, hmem, by simp [htakes]⟩
  | false =>
      rw [takenIn, List.any_eq_false]
      intro other hother htaken
      simp only [Bool.and_eq_true, decide_eq_true_eq] at htaken
      have hsame : other = change :=
        List.inj_on_of_nodup_map h.jobKeys hother hmem htaken.1
      rw [hsame, htakes] at htaken
      exact absurd htaken.2 (by simp)

/-- Whoever is active keeps its registration and its token: a change of the
token finds the name without active claims. -/
theorem Executed.keeps_token (h : Executed env view stmt changes)
    (hissued : Issued view op stmt) {row : JobRow}
    (hrow : row ∈ view.jobs.rows) (hactive : row.active = true)
    {worker : String} (hlockBy : row.lockBy = some worker)
    {owner : WorkerRow}
    (howner : view.workers.get? (worker, row.jobType) = some owner) :
    ∃ next, (view.apply changes).workers.get? (worker, row.jobType) =
      some next ∧ next.leaseToken = owner.leaseToken := by
  rcases h.worker_cases (worker, row.jobType) with
    ⟨change, hmem, hkey, hafter⟩ | ⟨_, hsame⟩
  · have hstep := h.workerStep hmem
    have hbusy : ∀ queue, queue = row.jobType → ¬ Unowned view worker queue :=
      fun queue hqueue hunowned =>
        hunowned row hrow hqueue.symm hactive hlockBy
    cases hstep with
    | register =>
        obtain ⟨rfl, rfl⟩ := Prod.mk.inj hkey
        refine ⟨_, hafter, ?_⟩
        cases hissued with
        | read hread => simp [Stmt.readOnly] at hread
        | register hincumbent =>
            rcases hincumbent owner howner with hsame | hunowned
            · rw [howner, hsame]
              rfl
            · exact absurd hunowned (hbusy _ rfl)
    | heartbeat hget _ =>
        rw [← hkey, hget] at howner
        cases howner
        exact ⟨_, hafter, rfl⟩
    | release _ =>
        obtain ⟨rfl, rfl⟩ := Prod.mk.inj hkey
        cases hissued with
        | read hread => simp [Stmt.readOnly] at hread
        | markReleased _ hunowned => exact absurd hunowned (hbusy _ rfl)
    | admin =>
        rw [← hkey] at howner
        refine ⟨_, hafter, ?_⟩
        rw [howner]
        rfl
    | prune _ _ _ hfree =>
        have hreferenced : referenced view (worker, row.jobType) = true := by
          rw [referenced, List.any_eq_true]
          exact ⟨row, hrow, by simp [hlockBy]⟩
        rw [← hkey, hfree] at hreferenced
        cases hreferenced
  · exact ⟨owner, hsame.trans howner, rfl⟩

theorem Holds.ownedUnder {worker : String} {token : Option String}
    {row : JobRow} (h : Holds view worker row.jobType token)
    (hbound : token.isSome = true) (hlockBy : row.lockBy = some worker) :
    OwnedUnder view row token := by
  obtain ⟨presented, hpresented⟩ := Option.isSome_iff_exists.mp hbound
  obtain ⟨owner, howner, htoken⟩ := h presented hpresented
  exact ⟨worker, owner, presented, hlockBy, howner, htoken, hpresented⟩

/-- One statement of a token-bound operation keeps the owners. -/
theorem Owned.step {commits : List Commit} {effects : List Effect}
    (h : Owned commits op view effects) (hbound : TokenBound op)
    (hissued : Issued view op stmt) (hexec : Executed env view stmt changes) :
    Owned commits op (view.apply changes) (effects ++ changes) := by
  intro row hrow hactive
  have hkept : ∀ old ∈ view.jobs.rows, old.active = true →
      row.id = old.id → row.lockBy = old.lockBy → row.jobType = old.jobType →
      takenIn changes row.id = false →
      OwnedUnder (view.apply changes) row
        (tokenAfter (claimedUnder commits row.id) row.id op
          (effects ++ changes)) := by
    intro old hold holdActive hid hlockBy hjobType hfree
    obtain ⟨worker, owner, presented, hworker, howner, hlease, htoken⟩ :=
      h old hold holdActive
    obtain ⟨next, hnext, hsame⟩ :=
      hexec.keeps_token hissued hold holdActive hworker howner
    refine ⟨worker, next, presented, hlockBy.trans hworker, ?_,
      hsame.trans hlease, ?_⟩
    · rw [hjobType]
      exact hnext
    · rw [tokenAfter, takenIn_append, hfree, Bool.or_false, hid]
      exact htoken
  rcases hexec.row_cases hrow with ⟨change, hmem, hafter⟩ | ⟨hold, hnot⟩
  · have hstep := hexec.jobStep hmem
    have hkey := hstep.reads.key_eq row hafter
    have htaken := hexec.takenIn_eq hmem
    rw [← hkey] at htaken
    -- a claim takes the row under the token its transaction checked
    have hclaimed : ∀ worker, takesRow change = true →
        (∀ change, ¬ WorkerStep env view stmt change) →
        row.lockBy = some worker → op.claimToken.isSome = true →
        Holds view worker row.jobType op.claimToken →
        OwnedUnder (view.apply changes) row
          (tokenAfter (claimedUnder commits row.id) row.id op
            (effects ++ changes)) := by
      intro worker htakes hno hlockBy htoken hholds
      rw [tokenAfter, takenIn_append, htaken, htakes, Bool.or_true,
        if_pos rfl]
      exact (hholds.of_workers_eq (hexec.workers_eq hno)).ownedUnder htoken
        hlockBy
    cases hstep with
    | enqueue _ _ =>
        cases hafter
        simp [NewJob.row, JobRow.active] at hactive
    | pollClaim hdue =>
        cases hafter
        cases hissued with
        | read hread => simp [Stmt.readOnly] at hread
        | fetchNext hholds =>
            exact hclaimed _ rfl (fun _ hstep => by cases hstep) rfl hbound
              (hdue.jobType ▸ hholds)
    | notifyClaim hdue _ =>
        cases hafter
        cases hissued with
        | read hread => simp [Stmt.readOnly] at hread
        | queueById hholds =>
            exact hclaimed _ rfl (fun _ hstep => by cases hstep) rfl hbound
              (hdue.jobType ▸ hholds)
    | compatibilityClaim _ =>
        cases hissued with
        | read hread => simp [Stmt.readOnly] at hread
        | getJobs => exact hbound.elim
    | quarantine _ | undecodable _ _ | recovery _ _ _ _ _ =>
        cases hafter
        simp at hactive
    | lock hstored hqueue _ =>
        cases hafter
        cases hissued with
        | read hread => simp [Stmt.readOnly] at hread
        | lockTask hholds =>
            have hheld := hholds _ hstored rfl hqueue
            exact hclaimed _ rfl (fun _ hstep => by cases hstep) rfl hbound
              hheld
    | start hstored hstart _ _ =>
        cases hafter
        exact hkept _ hstored (startable_iff.mp hstart).active rfl rfl rfl
          htaken
    | acknowledge _ _ =>
        cases hafter
        cases hissued with
        | read hread => simp [Stmt.readOnly] at hread
        | ackTask hupdate _ => simp [ackRow_active hupdate] at hactive
    | purge _ _ _ _ => cases hafter
  · exact hkept row hold hactive rfl rfl rfl (takenIn_of_not_mem hnot)

end

variable {rows : TaskConversion}

theorem claimedUnder_append (commits : List Commit) (last : Commit)
    (id : String) :
    claimedUnder (commits ++ [last]) id =
      tokenAfter (claimedUnder commits id) id last.op last.effects := by
  simp [claimedUnder]

/-- The owners of a reachable state. -/
def System.Owned (system : System) : Prop :=
  ∀ row ∈ system.db.jobs.rows, row.active = true →
    OwnedUnder system.db row (claimedUnder system.commits row.id)

variable (rows) in
theorem System.Owned.execute {system : System} (h : system.Owned)
    (invocation : Invocation) (hbound : TokenBound invocation.op) :
    (system.step rows invocation).Owned := by
  have howned := (System.execute_ensures rows system invocation
    (P := ApalisPostgres.Owned system.commits invocation.op)
    (by
      intro row hrow hactive
      simpa [tokenAfter, takenIn] using h row hrow hactive)
    (fun stmt env view effects changes hissued hview hexec =>
      hview.step hbound hissued hexec)).1
  intro row hrow hactive
  rw [System.step_commits, claimedUnder_append]
  exact howned row hrow hactive

theorem Reachable.owned {system : System}
    (h : Reachable rows (fun _ op => TokenBound op) system) : system.Owned := by
  induction h with
  | initial =>
      intro row hrow
      cases hrow
  | step hsystem invocation hadmits ih => exact ih.execute rows invocation hadmits

/-- In every run of token-bound claims, an active row names a registration
that carries exactly the token of its claim.  So a committed registration
leaves only rows of its own token under the name, and a committed release
leaves none. -/
theorem active_rows_owned {system : System}
    (h : Reachable rows (fun _ op => TokenBound op) system) :
    (∀ row ∈ system.db.jobs.rows, row.active = true →
      ∃ worker owner token, row.lockBy = some worker ∧
        system.db.workers.get? (worker, row.jobType) = some owner ∧
        owner.leaseToken = some token ∧
        claimedUnder system.commits row.id = some token) ∧
    (∀ worker queue storage layers token staleAfter env value,
      let invocation : Invocation :=
        ⟨.registerWorker worker queue storage layers token staleAfter, env⟩
      (system.execute rows invocation).outcome = .ok value →
      ∀ row ∈ (system.step rows invocation).db.jobs.rows,
        row.jobType = queue → row.active = true →
        row.lockBy = some worker →
        claimedUnder (system.step rows invocation).commits row.id =
          some token) ∧
    ∀ worker queue token env value,
      let invocation : Invocation := ⟨.releaseWorker queue worker token, env⟩
      (system.execute rows invocation).outcome = .ok value →
      ∀ row ∈ (system.step rows invocation).db.jobs.rows,
        row.jobType = queue → row.active = true →
        row.lockBy ≠ some worker := by
  have hsettled : ∀ invocation value,
      (system.execute rows invocation).outcome = .ok value →
      invocation.op.Settled (system.step rows invocation).db := by
    intro invocation value hok
    have houtcome := (System.execute_ensures rows system invocation
      (P := fun _ _ => True) trivial (fun _ _ _ _ _ _ _ _ => trivial)).2
    rw [hok] at houtcome
    exact houtcome.2
  refine ⟨h.owned, ?_, ?_⟩
  · intro worker queue storage layers token staleAfter env value invocation hok
      row hrow hqueue hactive hlockBy
    obtain ⟨found, howner, hlease⟩ := hsettled invocation value hok token rfl
    obtain ⟨other, owner, presented, hother, hget, hpresented, hclaimed⟩ :=
      h.owned.execute rows invocation trivial row hrow hactive
    rw [hlockBy] at hother
    cases hother
    rw [hqueue, howner] at hget
    cases hget
    rw [hclaimed, ← hpresented, hlease]
  · intro worker queue token env value invocation hok row hrow hqueue hactive
      hlockBy
    obtain ⟨found, howner, hlease⟩ := hsettled invocation value hok
    obtain ⟨other, owner, presented, hother, hget, hpresented, _⟩ :=
      h.owned.execute rows invocation trivial row hrow hactive
    rw [hlockBy] at hother
    cases hother
    rw [hqueue, howner] at hget
    cases hget
    rw [hlease] at hpresented
    cases hpresented

/-- A takeover of a stale name recovers the claim of the old token before the
new one owns the registration, and the row it claims again is its own. -/
theorem active_rows_owned_takeover :
    let later : Nat → Env := fun _ =>
      ⟨9000000, fun _ => false, fun _ => false, fun _ => true, true⟩
    let calls : List Invocation := [
      ⟨.registerWorker "worker" "queue" storageName "" "first" 30, quietEnv⟩,
      ⟨.pushTasksOnConn "queue" [sampleTask], quietEnv⟩,
      ⟨.fetchNext "worker" "queue" 10 (some "first"), quietEnv⟩,
      ⟨.registerWorker "worker" "queue" storageName "" "second" 30, later⟩,
      ⟨.fetchNext "worker" "queue" 10 (some "second"), later⟩]
    let system := calls.foldl (System.step TaskConversion.copying) .initial
    (system.db.jobs.rows.map fun row => (row.id, row.status, row.attempts)) =
        [(sampleId, .queued, 1)] ∧
      claimedUnder system.commits sampleId = some "second" ∧
      ∀ row ∈ system.db.jobs.rows, row.active = true →
        ∃ worker owner token, row.lockBy = some worker ∧
          system.db.workers.get? (worker, row.jobType) = some owner ∧
          owner.leaseToken = some token ∧
          claimedUnder system.commits row.id = some token := by
  intro later calls system
  refine ⟨by decide +kernel, by decide +kernel, ?_⟩
  have hsystem : Reachable TaskConversion.copying
      (fun _ op => TokenBound op) system :=
    .step (.step (.step (.step (.step .initial _ (by trivial))
      _ (by trivial)) _ rfl) _ (by trivial)) _ rfl
  exact (active_rows_owned hsystem).1

end ApalisPostgres
