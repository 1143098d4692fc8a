/-
Claim-epoch exclusivity.  A claim handed back by a release keeps its count,
so two claims of one task by one name can carry the same epoch.  The start
tells them apart: a record that has not started needs a `Queued` row, a row
leaves `Running` only with a charged attempt, and the marker of a record is
set only by a start that matched.
-/
import ApalisPostgres.AttemptAccounting
import Mathlib.Data.Finset.Card
import Mathlib.Order.Interval.Finset.Defs
import Mathlib.Data.Int.Interval

namespace ApalisPostgres

open RowStore

/-- A start that matched a row: by which record, and at which count. -/
structure MatchedStart where
  record : Nat
  taskId : String
  attempts : Int
deriving Repr, DecidableEq

/-- A run with the memory of its processes: the parts each claim returned,
numbered as they were recorded, the records marked as started, and every
start that matched. -/
structure EpochRun where
  system : System
  records : List Parts
  started : List Nat
  matched : List MatchedStart

def EpochRun.initial : EpochRun := ⟨.initial, [], [], []⟩

/-- The parts of the tasks a claim returned. -/
def returnedParts : Except Error Outcome → List Parts
  | .ok (.tasks tasks) => tasks.map Task.parts
  | _ => []

/-- The rows a start matched, with the count they carried. -/
def matchedStarts (record : Nat) (effects : List Effect) :
    List MatchedStart :=
  (jobChanges effects).filterMap fun change =>
    if change.tag = .start then
      change.before.map fun row => ⟨record, row.id, row.attempts⟩
    else none

/-- Operations other than the start of a recorded claim, without locks,
without purges and without acknowledgements of parts that lost their
record. -/
def RecordedOnly : Op → Prop
  | .lockTaskWithToken _ _ _ _ => False
  | .startTask _ => False
  | .purgeTerminalBatch _ _ _ => False
  | .acknowledge _ _ parts => parts.claim ≠ none
  | _ => True

variable (rows : TaskConversion)

def EpochRun.operate (run : EpochRun) (invocation : Invocation) : EpochRun :=
  { run with
    system := run.system.step rows invocation
    records := run.records ++
      returnedParts (run.system.execute rows invocation).outcome }

/-- Issue the start of a record. -/
def EpochRun.start (run : EpochRun) (record : Nat) (claim : StartClaim)
    (env : Nat → Env) : EpochRun :=
  { run with
    system := run.system.step rows ⟨.startTask claim, env⟩
    matched := run.matched ++
      matchedStarts record
        (run.system.execute rows ⟨.startTask claim, env⟩).effects }

/-- Every interleaving of the operations with the starts of recorded claims.
A start reads its record's marker before its statement runs, so it may still
hold an unset marker; the marker is set some time after a start matched. -/
inductive EpochReachable : EpochRun → Prop where
  | initial : EpochReachable .initial
  | operate {run : EpochRun} (hrun : EpochReachable run)
      (invocation : Invocation) (hop : RecordedOnly invocation.op) :
      EpochReachable (run.operate rows invocation)
  | start {run : EpochRun} (hrun : EpochReachable run) {record : Nat}
      {parts : Parts} (hparts : run.records[record]? = some parts)
      {restart : Bool} (hrestart : restart = true → record ∈ run.started)
      (leaseToken : Option String) (workerId : String) {claim : StartClaim}
      (hclaim : startClaim leaseToken workerId restart parts = .ok claim)
      (env : Nat → Env) : EpochReachable (run.start rows record claim env)
  | markStarted {run : EpochRun} (hrun : EpochReachable run)
      {start : MatchedStart} (hmatched : start ∈ run.matched) :
      EpochReachable { run with started := start.record :: run.started }

/-- A start that matched stays behind the row: the count moved on, or the row
still runs the claim. -/
structure StartedRow (db : Db) (start : MatchedStart) (row : JobRow) :
    Prop where
  stored : row ∈ db.jobs.rows
  id : row.id = start.taskId
  attempts_le : start.attempts ≤ row.attempts
  running : start.attempts = row.attempts → row.status = .running
  budget : 0 ≤ start.attempts ∧ start.attempts < row.maxAttempts

/-- What keeps two records of one epoch apart. -/
structure EpochRun.Exclusive (run : EpochRun) : Prop where
  unique : ∀ first ∈ run.matched, ∀ second ∈ run.matched,
    first.taskId = second.taskId → first.attempts = second.attempts →
      first.record = second.record
  rows : ∀ start ∈ run.matched, ∃ row, StartedRow run.system.db start row
  marked : ∀ record ∈ run.started, ∃ start ∈ run.matched,
    start.record = record
  recorded : ∀ parts ∈ run.records, parts.claim.isSome = true
  pinned : ∀ start ∈ run.matched, ∃ parts record,
    run.records[start.record]? = some parts ∧
      parts.taskId = some start.taskId ∧ parts.claim = some record ∧
      start.attempts = (record.completed : Int)

section

variable {env : Env} {view : Db} {op : Op} {stmt : Stmt}
  {changes : List Effect}

/-- Without locks and starts, a running row is only left with a charge. -/
theorem JobStep.leaves_running {change : JobChange} {old new : JobRow}
    (h : JobStep env view stmt change) (hissued : Issued view op stmt)
    (hop : RecordedOnly op) (hbefore : change.before = some old)
    (hafter : change.after = some new) (hrunning : old.status = .running) :
    chargesAttempt change = true := by
  have hfree : ∀ row, claimable row = true → row.status ≠ .running := by
    intro row hclaimable hstatus
    have := (claimable_iff row).mp hclaimable
    simp [hstatus] at this
  cases h with
  | enqueue _ _ => cases hbefore
  | pollClaim hdue | notifyClaim hdue _ | compatibilityClaim hdue =>
      cases hbefore
      exact absurd hrunning (hfree _ hdue.claimable)
  | quarantine _ | undecodable _ _ | acknowledge _ _ => rfl
  | lock _ _ _ =>
      cases hissued with
      | read hread => simp [Stmt.readOnly] at hread
      | lockTask _ => exact hop.elim
  | start _ _ _ _ =>
      cases hissued with
      | read hread => simp [Stmt.readOnly] at hread
      | startTask => exact hop.elim
  | @recovery _ _ _ reason _ _ _ _ _ _ =>
      cases hbefore
      cases reason <;> simp [chargesAttempt, hrunning]
  | purge _ _ _ _ => cases hafter

/-- One statement keeps every matched start behind its row. -/
theorem StartedRow.step {start : MatchedStart} {row : JobRow}
    (h : StartedRow view start row) (hissued : Issued view op stmt)
    (hop : RecordedOnly op) (hbudgeted : view.Budgeted)
    (hexec : Executed env view stmt changes) :
    ∃ next, StartedRow (view.apply changes) start next := by
  have hget := Table.get?_of_mem h.stored
  rcases hexec.job_cases row.id with ⟨change, hmem, hkey, hleft⟩ | ⟨_, hsame⟩
  · have hstep := hexec.jobStep hmem
    have hbefore : change.before = some row := by
      rw [hstep.reads.before_eq, hkey, hget]
    cases hafter : change.after with
    | none =>
        cases hstep with
        | purge _ _ _ _ =>
            cases hissued with
            | read hread => simp [Stmt.readOnly] at hread
            | purgeTerminal => exact hop.elim
        | enqueue _ _ | pollClaim _ | notifyClaim _ _ | compatibilityClaim _
        | quarantine _ | lock _ _ _ | undecodable _ _ | start _ _ _ _
        | acknowledge _ _ | recovery _ _ _ _ _ => cases hafter
    | some next =>
        obtain ⟨hid, _, hmax, _⟩ := hstep.fixed_columns hbefore hafter
        have hattempts := hstep.attempts_eq hissued hbudgeted.rows hbefore
          hafter
        have hle := h.attempts_le
        refine ⟨next, Table.mem_of_get? (hleft.trans hafter),
          hid.trans h.id, ?_, ?_, ?_⟩
        · split at hattempts <;> omega
        · intro heq
          have hnot : chargesAttempt change = false := by
            by_contra hcharges
            rw [if_pos (by simpa using hcharges)] at hattempts
            omega
          rw [hnot] at hattempts
          have hrunning := h.running (by simpa [hattempts] using heq)
          rw [hstep.leaves_running hissued hop hbefore hafter hrunning] at hnot
          cases hnot
        · rw [hmax]
          exact h.budget
  · exact ⟨row, Table.mem_of_get? (hsame.trans hget), h.id, h.attempts_le,
      h.running, h.budget⟩

end

variable {rows : TaskConversion}

theorem EpochReachable.reachable {run : EpochRun}
    (h : EpochReachable rows run) :
    Reachable rows (fun _ _ => True) run.system := by
  induction h with
  | initial => exact .initial
  | operate hrun invocation hop ih => exact .step ih invocation trivial
  | start hrun hparts hrestart leaseToken workerId hclaim env ih =>
      exact .step ih _ trivial
  | markStarted hrun hmatched ih => exact ih

theorem returnedParts_recorded {system : System} {invocation : Invocation}
    (h : match (system.execute rows invocation).outcome with
      | .ok value => value.Claimed (system.execute rows invocation).view
      | .error _ => True) :
    ∀ parts ∈ returnedParts (system.execute rows invocation).outcome,
      parts.claim.isSome = true := by
  intro parts hparts
  cases houtcome : (system.execute rows invocation).outcome with
  | error error =>
      rw [houtcome] at hparts
      cases hparts
  | ok value =>
      rw [houtcome] at h hparts
      cases value with
      | tasks tasks =>
          obtain ⟨task, htask, rfl⟩ := List.mem_map.mp hparts
          obtain ⟨row, _, hclaimed⟩ := h task htask
          rw [hclaimed.claim]
          rfl
      | done | count _ | started _ | rows _ => cases hparts

theorem EpochRun.Exclusive.operate {run : EpochRun} (h : run.Exclusive)
    (hbudgeted : run.system.db.Budgeted) (invocation : Invocation)
    (hop : RecordedOnly invocation.op) :
    (run.operate rows invocation).Exclusive := by
  obtain ⟨⟨_, hrows⟩, houtcome⟩ := System.execute_ensures rows
    run.system invocation
    (P := fun view _ => view.Budgeted ∧
      ∀ start ∈ run.matched, ∃ row, StartedRow view start row)
    ⟨hbudgeted, h.rows⟩
    (fun stmt env view effects changes hissued hview hexec => by
      refine ⟨hexec.budgeted hissued hview.1, ?_⟩
      intro start hstart
      obtain ⟨row, hrow⟩ := hview.2 start hstart
      exact hrow.step hissued hop hview.1 hexec)
  refine ⟨h.unique, hrows, h.marked, ?_, ?_⟩
  · intro parts hparts
    rcases List.mem_append.mp hparts with hold | hnew
    · exact h.recorded parts hold
    · refine returnedParts_recorded ?_ parts hnew
      cases hcase : (run.system.execute rows invocation).outcome with
      | error error => trivial
      | ok value =>
          rw [hcase] at houtcome
          exact houtcome.1
  · intro start hstart
    obtain ⟨parts, record, hparts, hrest⟩ := h.pinned start hstart
    refine ⟨parts, record, ?_, hrest⟩
    have hbound := (List.getElem?_eq_some_iff.mp hparts).1
    exact (List.getElem?_append_left hbound).trans hparts

/-- What the starts of one record have matched so far in their transaction. -/
structure StartMatches (run : EpochRun) (record : Nat) (claim : StartClaim)
    (view : Db) (effects : List Effect) : Prop where
  budgeted : view.Budgeted
  rows : ∀ start ∈ run.matched ++ matchedStarts record effects,
    ∃ row, StartedRow view start row
  pinned : ∀ start ∈ matchedStarts record effects, start.record = record ∧
    start.taskId = claim.taskId ∧ claim.attempts = some start.attempts
  sole : ∀ start ∈ matchedStarts record effects, ∀ old ∈ run.matched,
    old.taskId = start.taskId → old.attempts = start.attempts →
      old.record = record

theorem matchedStarts_append (record : Nat) (first second : List Effect) :
    matchedStarts record (first ++ second) =
      matchedStarts record first ++ matchedStarts record second := by
  simp [matchedStarts]

theorem mem_matchedStarts {env : Env} {view : Db} {stmt : Stmt}
    {changes : List Effect} {record : Nat} {start : MatchedStart}
    (hexec : Executed env view stmt changes)
    (h : start ∈ matchedStarts record changes) :
    ∃ claim row, stmt = .startTask claim ∧ row ∈ view.jobs.rows ∧
      Startable claim row ∧ start = ⟨record, row.id, row.attempts⟩ ∧
      startRow row ∈ (view.apply changes).jobs.rows := by
  obtain ⟨change, hmem, hselected⟩ := List.mem_filterMap.mp h
  have hstep := hexec.jobStep hmem
  have hleft := hexec.get?_of_mem hmem
  cases hstep with
  | start hrow hstart _ _ =>
      simp only [↓reduceIte, Option.map_some, Option.some.injEq] at hselected
      exact ⟨_, _, rfl, hrow, startable_iff.mp hstart, hselected.symm,
        Table.mem_of_get? hleft⟩
  | enqueue _ _ | pollClaim _ | notifyClaim _ _ | compatibilityClaim _
  | quarantine _ | lock _ _ _ | undecodable _ _ | acknowledge _ _
  | recovery _ _ _ _ _ | purge _ _ _ _ => simp at hselected

/-- A start moves its row to `Running` and nothing else. -/
theorem StartedRow.start_step {env : Env} {view : Db} {claim : StartClaim}
    {changes : List Effect} {start : MatchedStart} {row : JobRow}
    (h : StartedRow view start row)
    (hexec : Executed env view (.startTask claim) changes) :
    ∃ next, StartedRow (view.apply changes) start next := by
  have hget := Table.get?_of_mem h.stored
  rcases hexec.job_cases row.id with ⟨change, hmem, hkey, hleft⟩ | ⟨_, hsame⟩
  · have hstep := hexec.jobStep hmem
    cases hstep with
    | @start _ old _ hrow _ _ _ =>
        have hrowEq := Db.row_unique hrow h.stored hkey
        subst hrowEq
        exact ⟨startRow old, Table.mem_of_get? hleft, h.id, h.attempts_le,
          fun _ => rfl, h.budget⟩
  · exact ⟨row, Table.mem_of_get? (hsame.trans hget), h.id, h.attempts_le,
      h.running, h.budget⟩

/-- One start statement: the row it matches was `Queued`, or it runs the
claim of this very record. -/
theorem StartMatches.step {run : EpochRun} {record : Nat} {parts : Parts}
    {attempt : ClaimAttempt} {claim : StartClaim} {env : Env} {view : Db}
    {stmt : Stmt} {effects changes : List Effect} (hrun : run.Exclusive)
    (hparts : run.records[record]? = some parts)
    (hrecord : parts.claim = some attempt)
    (htaskId : parts.taskId = some claim.taskId)
    (hattempts : claim.attempts = some (attempt.completed : Int))
    (hrestart : claim.restart = true → record ∈ run.started)
    (h : StartMatches run record claim view effects)
    (hissued : Issued view (.startTask claim) stmt)
    (hexec : Executed env view stmt changes) :
    StartMatches run record claim (view.apply changes)
      (effects ++ changes) := by
  have hstmt : stmt.readOnly = true ∨ stmt = .startTask claim := by
    cases hissued with
    | read hread => exact Or.inl hread
    | startTask => exact Or.inr rfl
  rcases hstmt with hread | rfl
  · have hnil : changes = [] := hexec.readOnly hread
    subst hnil
    rw [List.append_nil]
    exact h
  · -- what a newly matched start says about its row
    have hnew : ∀ start ∈ matchedStarts record changes,
        ∃ row, row ∈ view.jobs.rows ∧ Startable claim row ∧
          start = ⟨record, row.id, row.attempts⟩ ∧
          startRow row ∈ (view.apply changes).jobs.rows := by
      intro start hstart
      obtain ⟨other, row, heq, hrow, hstartable, hselected, hleft⟩ :=
        mem_matchedStarts hexec hstart
      cases heq
      exact ⟨row, hrow, hstartable, hselected, hleft⟩
    have hcount : ∀ row, Startable claim row →
        row.attempts = (attempt.completed : Int) := by
      intro row hstartable
      rcases hstartable.attempts with hnone | hsome
      · rw [hattempts] at hnone
        cases hnone
      · rw [hattempts] at hsome
        exact (Option.some.inj hsome).symm
    refine ⟨hexec.budgeted hissued h.budgeted, ?_, ?_, ?_⟩
    · intro start hstart
      rw [matchedStarts_append, ← List.append_assoc] at hstart
      rcases List.mem_append.mp hstart with hold | hstart
      · obtain ⟨row, hrow⟩ := h.rows start hold
        exact hrow.start_step hexec
      · obtain ⟨row, hrow, hstartable, rfl, hleft⟩ := hnew start hstart
        have hbudget := h.budgeted.rows row hrow
        exact ⟨startRow row, hleft, rfl, le_refl _, fun _ => rfl,
          hbudget.attempts_nonneg, hbudget.active hstartable.active⟩
    · intro start hstart
      rw [matchedStarts_append] at hstart
      rcases List.mem_append.mp hstart with hold | hstart
      · exact h.pinned start hold
      · obtain ⟨row, hrow, hstartable, rfl, _⟩ := hnew start hstart
        exact ⟨rfl, hstartable.id, by rw [hattempts, hcount row hstartable]⟩
    · intro start hstart old hold htask hcountEq
      rw [matchedStarts_append] at hstart
      rcases List.mem_append.mp hstart with hearlier | hstart
      · exact h.sole start hearlier old hold htask hcountEq
      · obtain ⟨row, hrow, hstartable, rfl, _⟩ := hnew start hstart
        obtain ⟨kept, hkept⟩ := h.rows old (List.mem_append_left _ hold)
        have hsame := Db.row_unique hkept.stored hrow
          (hkept.id.trans htask)
        subst hsame
        have hrunning := hkept.running hcountEq
        have hmarked : record ∈ run.started := by
          rcases hstartable.status with hqueued | ⟨hagain, _⟩
          · rw [hrunning] at hqueued
            cases hqueued
          · exact hrestart hagain
        -- the marker came from a start of this record at this very count
        obtain ⟨first, hfirst, hfirstRecord⟩ := hrun.marked record hmarked
        obtain ⟨found, other, hfound, hfoundId, hother, hfirstCount⟩ :=
          hrun.pinned first hfirst
        rw [hfirstRecord, hparts] at hfound
        cases hfound
        rw [hrecord] at hother
        cases hother
        have hfirstTask : first.taskId = claim.taskId := by
          rw [htaskId] at hfoundId
          exact (Option.some.inj hfoundId).symm
        rw [← hfirstRecord]
        apply hrun.unique old hold first hfirst
        · rw [htask, hfirstTask]
          exact hstartable.id
        · rw [hcountEq, hfirstCount]
          exact hcount _ hstartable

theorem EpochRun.Exclusive.start {run : EpochRun} (h : run.Exclusive)
    (hbudgeted : run.system.db.Budgeted) {record : Nat} {parts : Parts}
    (hparts : run.records[record]? = some parts) {restart : Bool}
    (hrestart : restart = true → record ∈ run.started)
    {leaseToken : Option String} {workerId : String} {claim : StartClaim}
    (hclaim : startClaim leaseToken workerId restart parts = .ok claim)
    (env : Nat → Env) : (run.start rows record claim env).Exclusive := by
  obtain ⟨attempt, hrecord⟩ := Option.isSome_iff_exists.mp
    (h.recorded parts (List.mem_of_getElem? hparts))
  have hstarts := startClaim_ok hclaim
  have htaskId := hstarts.taskId
  obtain ⟨hattempts, hflag⟩ := hstarts.recorded _ hrecord
  obtain ⟨hmatches, _⟩ := System.execute_ensures rows
    run.system ⟨.startTask claim, env⟩
    (P := StartMatches run record claim)
    ⟨hbudgeted, by simpa [matchedStarts] using h.rows, by simp [matchedStarts],
      by simp [matchedStarts]⟩
    (fun stmt env view effects changes hissued hview hexec =>
      hview.step h hparts hrecord htaskId hattempts (hflag ▸ hrestart) hissued
        hexec)
  refine ⟨?_, hmatches.rows, ?_, h.recorded, ?_⟩
  · intro first hfirst second hsecond htask hcount
    rcases List.mem_append.mp hfirst with hfirst | hfirst
    · rcases List.mem_append.mp hsecond with hsecond | hsecond
      · exact h.unique first hfirst second hsecond htask hcount
      · rw [hmatches.sole second hsecond first hfirst htask hcount,
          (hmatches.pinned second hsecond).1]
    · rcases List.mem_append.mp hsecond with hsecond | hsecond
      · rw [(hmatches.pinned first hfirst).1,
          hmatches.sole first hfirst second hsecond htask.symm hcount.symm]
      · rw [(hmatches.pinned first hfirst).1, (hmatches.pinned second hsecond).1]
  · intro marked hmarked
    obtain ⟨start, hstart, hrec⟩ := h.marked marked hmarked
    exact ⟨start, List.mem_append_left _ hstart, hrec⟩
  · intro start hstart
    rcases List.mem_append.mp hstart with hold | hnew
    · exact h.pinned start hold
    · obtain ⟨hrec, htask, hcount⟩ := hmatches.pinned start hnew
      refine ⟨parts, attempt, by rw [hrec]; exact hparts, ?_, hrecord, ?_⟩
      · rw [htask]
        exact htaskId
      · rw [hattempts] at hcount
        exact (Option.some.inj hcount).symm

theorem EpochReachable.exclusive {run : EpochRun}
    (h : EpochReachable rows run) : run.Exclusive := by
  induction h with
  | initial =>
      constructor <;> intro item hitem <;> cases hitem
  | operate hrun invocation hop ih =>
      exact ih.operate hrun.reachable.budgeted invocation hop
  | start hrun hparts hrestart leaseToken workerId hclaim env ih =>
      exact ih.start hrun.reachable.budgeted hparts hrestart hclaim env
  | markStarted hrun hmatched ih =>
      refine ⟨ih.unique, ih.rows, ?_, ih.recorded, ih.pinned⟩
      intro record hrecord
      rcases List.mem_cons.mp hrecord with rfl | hold
      · exact ⟨_, hmatched, rfl⟩
      · exact ih.marked record hold

/-- The records with a start that matched the task. -/
def EpochRun.startedRecords (run : EpochRun) (taskId : String) : Finset Nat :=
  ((run.matched.filter fun start => start.taskId = taskId).map
    MatchedStart.record).toFinset

/-- A record of one task is a function of the count it started at, so the
records are no more than the counts. -/
theorem EpochRun.Exclusive.card_le {run : EpochRun} (h : run.Exclusive)
    {row : JobRow} (hrow : row ∈ run.system.db.jobs.rows)
    (hnonneg : 0 ≤ row.maxAttempts) :
    ((run.startedRecords row.id).card : Int) ≤ row.maxAttempts := by
  have hstarted : ∀ start ∈ run.matched, start.taskId = row.id →
      0 ≤ start.attempts ∧ start.attempts < row.maxAttempts := by
    intro start hstart htask
    obtain ⟨kept, hkept⟩ := h.rows start hstart
    have hsame := Db.row_unique hkept.stored hrow (hkept.id.trans htask)
    subst hsame
    exact hkept.budget
  have hcount : ∀ record ∈ run.startedRecords row.id, ∃ count : Int,
      ∃ start ∈ run.matched, start.taskId = row.id ∧
        start.record = record ∧ start.attempts = count := by
    intro record hrecord
    simp only [EpochRun.startedRecords, List.mem_toFinset, List.mem_map,
      List.mem_filter, decide_eq_true_eq] at hrecord
    obtain ⟨start, ⟨hstart, htask⟩, hrec⟩ := hrecord
    exact ⟨start.attempts, start, hstart, htask, hrec, rfl⟩
  choose! count hcountOf using hcount
  have hinjective : Set.InjOn count (run.startedRecords row.id) := by
    intro first hfirst second hsecond heq
    obtain ⟨one, hone, honeTask, honeRecord, honeCount⟩ := hcountOf first hfirst
    obtain ⟨two, htwo, htwoTask, htwoRecord, htwoCount⟩ :=
      hcountOf second hsecond
    rw [← honeRecord, ← htwoRecord]
    apply h.unique one hone two htwo (honeTask.trans htwoTask.symm)
    rw [honeCount, htwoCount, heq]
  have hmaps : ∀ record ∈ run.startedRecords row.id,
      count record ∈ Finset.Ico 0 row.maxAttempts := by
    intro record hrecord
    obtain ⟨start, hstart, htask, _, hstartCount⟩ := hcountOf record hrecord
    have hbudget := hstarted start hstart htask
    rw [hstartCount] at hbudget
    exact Finset.mem_Ico.mpr hbudget
  have hcard := Finset.card_le_card_of_injOn count hmaps hinjective
  rw [Int.card_Ico] at hcard
  omega

/-- Over every interleaving, at most one claim record has a start that matches
a task at a given count, and so no task is started by more records than its
budget allows. -/
theorem claim_epoch_exclusive {run : EpochRun}
    (h : EpochReachable rows run) :
    (∀ first ∈ run.matched, ∀ second ∈ run.matched,
      first.taskId = second.taskId → first.attempts = second.attempts →
        first.record = second.record) ∧
    ∀ row ∈ run.system.db.jobs.rows,
      ((run.startedRecords row.id).card : Int) ≤ row.maxAttempts := by
  refine ⟨h.exclusive.unique, ?_⟩
  intro row hrow
  have hstorable := h.reachable.budgeted.storable row hrow
  exact h.exclusive.card_le hrow (le_of_lt hstorable.maxAttempts_pos)

/-- A claim is handed back by a release and claimed again in the same second:
both records carry one epoch, and only the first of them to start matches. -/
theorem claim_epoch_exclusive_shared_epoch :
    let calls : List Invocation := [
      ⟨.registerWorker "worker" "queue" storageName "" "first" 30, quietEnv⟩,
      ⟨.pushTasksOnConn "queue" [sampleTask], quietEnv⟩,
      ⟨.fetchNext "worker" "queue" 10 (some "first"), quietEnv⟩,
      ⟨.releaseWorker "queue" "worker" "first", quietEnv⟩,
      ⟨.registerWorker "worker" "queue" storageName "" "second" 30, quietEnv⟩,
      ⟨.fetchNext "worker" "queue" 10 (some "second"), quietEnv⟩]
    let claim : StartClaim :=
      ⟨sampleId, "queue", "worker", 1, some 0, false, some "second"⟩
    let claimed := calls.foldl (EpochRun.operate TaskConversion.copying)
      .initial
    let run := (claimed.start TaskConversion.copying 1 claim quietEnv).start
      TaskConversion.copying 0 claim quietEnv
    (run.records.map fun parts => (parts.taskId, parts.ctx.lockBy, parts.claim))
        = List.replicate 2
          (some sampleId, some "worker", some ⟨some sampleId, some 1, 0⟩) ∧
      run.matched = [⟨1, sampleId, 0⟩] ∧
      ∀ row ∈ run.system.db.jobs.rows,
        ((run.startedRecords row.id).card : Int) ≤ row.maxAttempts := by
  intro calls claim claimed run
  refine ⟨by decide +kernel, by decide +kernel, ?_⟩
  have hclaimed : EpochReachable TaskConversion.copying claimed :=
    .operate (.operate (.operate (.operate (.operate (.operate .initial
      _ (by trivial)) _ (by trivial)) _ (by trivial)) _ (by trivial))
      _ (by trivial)) _ (by trivial)
  let parts : Parts := ⟨some sampleId, ⟨2, some 1, some "worker", some "queue"⟩,
    0, some ⟨some sampleId, some 1, 0⟩⟩
  have hparts : claimed.records[1]? = some parts := by decide +kernel
  have hunmarked : ∀ {record : Nat} {marked : List Nat},
      false = true → record ∈ marked := by simp
  have hsecond : EpochReachable TaskConversion.copying
      (claimed.start TaskConversion.copying 1 claim quietEnv) :=
    .start hclaimed hparts hunmarked (some "second") "worker" rfl quietEnv
  have hparts : (claimed.start TaskConversion.copying 1 claim
      quietEnv).records[0]? = some parts := by decide +kernel
  have hrun : EpochReachable TaskConversion.copying run :=
    .start hsecond hparts hunmarked (some "second") "worker" rfl quietEnv
  exact (claim_epoch_exclusive hrun).2

end ApalisPostgres
