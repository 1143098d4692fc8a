/-
Reading results back.  Five statements write `last_result`; `check_status` and
`wait_for` read it through one conversion.  What a finished row stores always
has the tag of its status, and what a handler returned is what a reader gets
once the row is finished for good.
-/
import ApalisPostgres.Lifecycle

namespace ApalisPostgres

open RowStore

def Status.text : Status → String
  | .pending => "Pending"
  | .queued => "Queued"
  | .running => "Running"
  | .done => "Done"
  | .failed => "Failed"
  | .killed => "Killed"

/-- The texts of the core crate: a task id and a status that were printed
parse back. -/
structure TaskTexts (Id : Type) where
  toText : Id → String
  taskIdFromStr : String → Except String Id
  statusFromStr : String → Except String Status
  taskId_roundTrip : ∀ id, taskIdFromStr (toText id) = .ok id
  status_roundTrip : ∀ status : Status, statusFromStr status.text = .ok status

/-- serde's conversions of a payload type: a serialized payload reads back
under the `Ok` tag, an error text under the `Err` tag. -/
structure ResultCodec (O : Type) where
  toValue : O → Except String Json
  fromValue : Json → Except String (Except String O)
  ok_roundTrip : ∀ {output value}, toValue output = .ok value →
    fromValue (okResult value) = .ok (.ok output)
  err_roundTrip : ∀ text, fromValue (errResult text) = .ok (.error text)

/-- What the acknowledger receives for a handler's result. -/
def ResultCodec.handlerResult {O : Type} (codec : ResultCodec O) :
    Except String O → HandlerResult
  | .ok output => .ok (codec.toValue output)
  | .error message => .err message

/-- What a reader is owed for a handler's result: an error keeps its displayed
text, cut to the length the column accepts. -/
def persistedResult {O : Type} : Except String O → Except String O
  | .ok output => .ok output
  | .error message => .error (truncateErrorPayload message)

structure TaskResult (O Id : Type) where
  taskId : Id
  status : Status
  result : Except String O

structure TaskResultRow where
  id : Option String
  status : Option String
  result : Option Json

/-- A row a completion wait tracks, with the server's own verdict on whether
it will ever run again. -/
structure TrackedTaskRow where
  id : String
  status : String
  result : Option Json
  terminal : Bool

def TrackedTaskRow.toTaskResultRow (row : TrackedTaskRow) : TaskResultRow :=
  ⟨some row.id, some row.status, row.result⟩

/-- One item of a completion wait. -/
abbrev WaitItem (O Id : Type) := Except Error (TaskResult O Id)

section

variable {O Id : Type} (texts : TaskTexts Id) (codec : ResultCodec O)

def taskResultFromRow (row : TaskResultRow) :
    Except Error (TaskResult O Id) := do
  let id ← row.id.elim (.error (.missingField "id")) .ok
  let status ← row.status.elim (.error (.missingField "status")) .ok
  let result ← row.result.elim (.error (.missingField "last_result")) .ok
  return {
    taskId := ← (texts.taskIdFromStr id).mapError Error.row
    status := ← (texts.statusFromStr status).mapError Error.row
    result := ← (codec.fromValue result).mapError Error.json }

/-- `SELECT id, status, last_result AS result`. -/
def JobRow.taskResultRow (row : JobRow) : TaskResultRow :=
  ⟨some row.id, some row.status.text, row.lastResult⟩

/-- `WHERE id = ANY($1) AND TERMINAL_PREDICATE`. -/
def completedTaskRows (db : Db) (ids : List String) : List TaskResultRow :=
  (db.jobs.rows.filter fun row =>
    ids.contains row.id && terminal row).map JobRow.taskResultRow

/-- The reads go through the pool and may fail before they see a database. -/
def checkStatus (read : Except Error Db) (taskIds : List Id) :
    Except Error (List (TaskResult O Id)) := do
  let db ← read
  (completedTaskRows db (taskIds.map texts.toText)).mapM
    (taskResultFromRow texts codec)

/-- Only a terminal row's result is read. -/
def JobRow.tracked (row : JobRow) : TrackedTaskRow :=
  ⟨row.id, row.status.text,
    if ApalisPostgres.terminal row then row.lastResult else none,
    ApalisPostgres.terminal row⟩

def trackedTaskRows (db : Db) (ids : List String) : List TrackedTaskRow :=
  (db.jobs.rows.filter fun row => ids.contains row.id).map JobRow.tracked

/-- The instants at which awaited ids were first found absent. -/
abbrev Absences := String → Option Nat

def Absences.insert (absent : Absences) (id : String) (now : Nat) : Absences :=
  fun other => if other = id then some now else absent other

def Absences.remove (absent : Absences) (id : String) : Absences :=
  fun other => if other = id then none else absent other

structure PollTriage (O Id : Type) where
  items : List (WaitItem O Id)
  remaining : List String
  absentSince : Absences

def waitedTaskNotFound (id : String) : Error :=
  Error.ofTaskNotFound "waiting for completion" id none
    "the task does not exist: it was never enqueued, its enqueue has not committed, or it was purged"

/-- Sort the awaited ids by what the poll returned: a terminal row yields its
result, a present one keeps waiting, and an absent one is reported once it has
been absent for the whole grace. -/
def triagePoll (now grace : Nat) :
    List String → List TrackedTaskRow → Absences → PollTriage O Id
  | [], _, absent => ⟨[], [], absent⟩
  | id :: rest, present, absent =>
      match present.find? fun row => row.id = id with
      | some row =>
          let triage := triagePoll now grace rest
            (present.filter fun other => other.id ≠ id) (absent.remove id)
          if row.terminal then
            { triage with
              items := taskResultFromRow texts codec row.toTaskResultRow ::
                triage.items }
          else { triage with remaining := id :: triage.remaining }
      | none =>
          match absent id with
          | some firstAbsent =>
              if grace ≤ now - firstAbsent then
                let triage := triagePoll now grace rest present
                  (absent.remove id)
                { triage with
                  items := .error (waitedTaskNotFound id) :: triage.items }
              else
                let triage := triagePoll now grace rest present absent
                { triage with remaining := id :: triage.remaining }
          | none =>
              let triage := triagePoll now grace rest present
                (absent.insert id now)
              { triage with remaining := id :: triage.remaining }

/-- The awaited ids in their first order, each once. -/
def distinctIds : List String → List String
  | [] => []
  | id :: rest => id :: (distinctIds rest).filter fun other => other ≠ id

def initialBackoff : Duration := 100000000

def maxBackoff : Duration := 2000000000

def maxConsecutiveDbErrors : Nat := 3

def nextBackoff (backoff max : Duration) : Duration := min (backoff * 2) max

def dbErrorsExhausted (errorStreak maxConsecutive : Nat) : Bool :=
  decide (maxConsecutive ≤ errorStreak + 1)

/-- The state `stream::unfold` carries from poll to poll. -/
structure Wait where
  remaining : List String
  backoff : Duration
  errorStreak : Nat
  absentSince : Absences

/-- What one poll sees, and when. -/
structure WaitPoll where
  read : Except Error Db
  now : Nat

def waitStart (taskIds : List Id) : Wait :=
  ⟨distinctIds (taskIds.map texts.toText), initialBackoff, 0, fun _ => none⟩

/-- One turn of the wait: `none` ends the stream. -/
def waitStep (wait : Wait) (poll : WaitPoll) :
    Option (List (WaitItem O Id) × Wait) :=
  if wait.remaining.isEmpty then none
  else match poll.read with
  | .error error =>
      if dbErrorsExhausted wait.errorStreak maxConsecutiveDbErrors then
        some ([.error error], ⟨[], initialBackoff, 0, wait.absentSince⟩)
      else
        some ([], { wait with
          backoff := nextBackoff wait.backoff maxBackoff
          errorStreak := wait.errorStreak + 1 })
  | .ok db =>
      let triage := triagePoll texts codec poll.now initialBackoff
        wait.remaining (trackedTaskRows db wait.remaining) wait.absentSince
      if triage.items.isEmpty then
        some ([], ⟨triage.remaining, nextBackoff wait.backoff maxBackoff, 0,
          triage.absentSince⟩)
      else
        some (triage.items, ⟨triage.remaining, initialBackoff, 0,
          triage.absentSince⟩)

/-- The items of a wait over its polls, and where it stands after them. -/
def waitRun : Wait → List WaitPoll → List (WaitItem O Id) × Wait
  | wait, [] => ([], wait)
  | wait, poll :: polls =>
      match waitStep texts codec wait poll with
      | none => ([], wait)
      | some (items, next) =>
          let later := waitRun next polls
          (items ++ later.1, later.2)

def waitForCompletion (taskIds : List Id) (polls : List WaitPoll) :
    List (WaitItem O Id) × Wait :=
  waitRun texts codec (waitStart texts taskIds) polls

end

/-- The stored result carries the tag of the status. -/
structure JobRow.ResultShaped (row : JobRow) : Prop where
  done : row.status = .done → ∃ value, row.lastResult = some (okResult value)
  ended : row.status = .failed ∨ row.status = .killed →
    ∃ message, row.lastResult = some (errResult message)

theorem JobRow.ResultShaped.of_waiting {row : JobRow}
    (h : row.status = .pending ∨ row.status = .queued ∨
      row.status = .running) : row.ResultShaped := by
  constructor
  · intro hdone
    simp [hdone] at h
  · intro hended
    rcases hended with hended | hended <;> simp [hended] at h

theorem JobRow.ResultShaped.of_error {row : JobRow} {message : String}
    (hresult : row.lastResult = some (errResult message))
    (hstatus : row.status ≠ .done) : row.ResultShaped :=
  ⟨fun hdone => absurd hdone hstatus, fun _ => ⟨message, hresult⟩⟩

theorem Recovery.result_eq (reason : Recovery) :
    ∃ message, reason.result = errResult message := by
  cases reason <;> exact ⟨_, rfl⟩

/-- What the five writers leave, whatever they found. -/
theorem Documented.resultShaped {origin view : Db} {clock : Nat → Env}
    {now : Timestamp} {op : Op} {before : Option JobRow} {row : JobRow}
    (h : Documented origin clock view now op before (some row)) :
    row.ResultShaped := by
  cases h with
  | enqueue _ => exact .of_waiting (Or.inl rfl)
  | pollClaim hclaims | notifyClaim hclaims _ | compatibilityClaim hclaims =>
      exact .of_waiting (Or.inr (Or.inl (by rw [hclaims.writes])))
  | start _ _ _ _ _ _ _ _ => exact .of_waiting (Or.inr (Or.inr rfl))
  | lock _ _ _ _ => exact .of_waiting (Or.inr (Or.inr rfl))
  | @acknowledge _ res _ _ _ result old _ _ _ _ _ _ _ hresult =>
      cases res with
      | ok value =>
          cases value with
          | error message => cases hresult
          | ok value =>
              cases hresult
              exact ⟨fun _ => ⟨value, rfl⟩, by simp [HandlerResult.isOk]⟩
      | err message =>
          cases hresult
          refine .of_error rfl ?_
          rw [HandlerResult.isOk, if_neg (by simp)]
          split <;> simp
  | undecodable _ _ =>
      refine .of_error rfl ?_
      dsimp only
      split <;> simp
  | quarantine _ _ _ _ _ _ _ => exact .of_error rfl (by simp)
  | @recovery _ _ reason old _ _ _ =>
      obtain ⟨message, hmessage⟩ := reason.result_eq
      by_cases hleft : recoveredAttempts reason old < old.maxAttempts
      · exact .of_waiting (Or.inl (if_pos hleft))
      · refine .of_error (show _ = some (errResult message) from ?_) ?_
        · simp [hleft, hmessage]
        · simp [hleft]

section

variable {rows : TaskConversion} {admits : System → Op → Prop}
  {system : System}

theorem Reachable.resultShaped (h : Reachable rows admits system) :
    ∀ row ∈ system.db.jobs.rows, row.ResultShaped :=
  h.row_invariant fun _ hedge _ => hedge.resultShaped

end

section

variable {O Id : Type} (texts : TaskTexts Id) (codec : ResultCodec O)

theorem taskResultFromRow_ok {row : JobRow} {taskId : Id} {value : Json}
    {result : Except String O} (hid : row.id = texts.toText taskId)
    (hvalue : row.lastResult = some value)
    (hresult : codec.fromValue value = .ok result) :
    taskResultFromRow texts codec row.taskResultRow =
      .ok ⟨taskId, row.status, result⟩ := by
  simp [taskResultFromRow, JobRow.taskResultRow, hid, hvalue, hresult,
    texts.taskId_roundTrip, texts.status_roundTrip, Except.mapError, bind,
    Except.bind, pure, Except.pure]

/-- A stored result leaves the conversion no field to miss. -/
theorem taskResultFromRow_ne_missingField {row : JobRow} {value : Json}
    (hvalue : row.lastResult = some value) (field : String) :
    taskResultFromRow texts codec row.taskResultRow ≠
      .error (.missingField field) := by
  simp only [taskResultFromRow, JobRow.taskResultRow, hvalue, bind,
    Except.bind, pure, Except.pure, Option.elim, Except.mapError]
  cases texts.taskIdFromStr row.id with
  | error message => simp
  | ok taskId =>
      simp only [texts.status_roundTrip]
      cases codec.fromValue value with
      | error message => simp
      | ok result => simp

/-- `check_status` of one id reads the row of that id, once it is terminal. -/
theorem checkStatus_singleton {db : Db} {row : JobRow} {taskId : Id}
    (hget : db.jobs.get? (texts.toText taskId) = some row) :
    checkStatus texts codec (.ok db) [taskId] =
      if terminal row then
        (taskResultFromRow texts codec row.taskResultRow).map fun result =>
          [result]
      else .ok [] := by
  have hrow := Table.filter_of_get? hget
    (fun row => [texts.toText taskId].contains row.id && terminal row) (by
      intro other _ hkept
      simp only [List.contains_cons, List.contains_nil, Bool.or_false,
        Bool.and_eq_true, beq_iff_eq] at hkept
      exact hkept.1)
  have hid := Table.key_of_get? hget
  simp only [checkStatus, completedTaskRows, List.map_cons, List.map_nil,
    hrow, bind, Except.bind]
  by_cases hterminal : terminal row = true
  · simp only [List.contains_cons, hid, BEq.rfl, Bool.true_or, hterminal,
      Bool.and_self, if_true, List.map_cons, List.map_nil, List.mapM_cons,
      List.mapM_nil, bind, Except.bind, pure, Except.pure]
    cases taskResultFromRow texts codec row.taskResultRow <;> rfl
  · simp [hterminal, pure, Except.pure]

theorem triagePoll_remaining (now grace : Nat) (remaining : List String)
    (present : List TrackedTaskRow) (absent : Absences) :
    (triagePoll texts codec now grace remaining present
      absent).remaining.Sublist remaining := by
  induction remaining generalizing present absent with
  | nil => exact List.Sublist.refl _
  | cons id rest ih =>
      unfold triagePoll
      split
      · dsimp only
        split
        · exact (ih _ _).cons id
        · exact (ih _ _).cons_cons id
      · split
        · split
          · exact (ih _ _).cons id
          · exact (ih _ _).cons_cons id
        · exact (ih _ _).cons_cons id

theorem find?_filter_ne {present : List TrackedTaskRow} {head id : String}
    (hne : head ≠ id) :
    (present.filter fun other => other.id ≠ head).find? (fun row =>
        row.id = id) = present.find? fun row => row.id = id := by
  rw [List.find?_filter]
  congr 1
  funext row
  by_cases hrow : row.id = id
  · simp [hrow, hne.symm]
  · simp [hrow]

/-- What a poll decides for an awaited id that a row carries: a terminal row
yields its result and ends the wait for it, any other row keeps it. -/
structure PollTriage.Decides (triage : PollTriage O Id) (id : String)
    (row : TrackedTaskRow) : Prop where
  yields : row.terminal = true →
    taskResultFromRow texts codec row.toTaskResultRow ∈ triage.items ∧
      id ∉ triage.remaining
  keeps : row.terminal = false → id ∈ triage.remaining

section

variable {texts codec} {triage : PollTriage O Id} {id : String}
  {row : TrackedTaskRow}

theorem PollTriage.Decides.item (h : triage.Decides texts codec id row)
    (item : WaitItem O Id) :
    ({ triage with items := item :: triage.items } :
      PollTriage O Id).Decides texts codec id row :=
  ⟨fun hterminal => ⟨List.mem_cons_of_mem _ (h.yields hterminal).1,
    (h.yields hterminal).2⟩, h.keeps⟩

theorem PollTriage.Decides.wait (h : triage.Decides texts codec id row)
    {other : String} (hne : other ≠ id) :
    ({ triage with remaining := other :: triage.remaining } :
      PollTriage O Id).Decides texts codec id row := by
  refine ⟨fun hterminal => ⟨(h.yields hterminal).1, ?_⟩, fun hactive =>
    List.mem_cons_of_mem _ (h.keeps hactive)⟩
  intro hmem
  rcases List.mem_cons.mp hmem with heq | hmem
  · exact hne heq.symm
  · exact (h.yields hterminal).2 hmem

end

theorem triagePoll_decides {id : String} {row : TrackedTaskRow}
    (now grace : Nat) (remaining : List String) (present : List TrackedTaskRow)
    (absent : Absences) (hnodup : remaining.Nodup) (hid : id ∈ remaining)
    (hrow : (present.find? fun row => row.id = id) = some row) :
    (triagePoll texts codec now grace remaining present absent).Decides
      texts codec id row := by
  induction remaining generalizing present absent with
  | nil => cases hid
  | cons head rest ih =>
      obtain ⟨hhead, hrest⟩ := List.nodup_cons.mp hnodup
      by_cases hsame : head = id
      · subst hsame
        have hgone : ∀ left cleared, head ∉ (triagePoll texts codec now grace
            rest left cleared).remaining := by
          intro left cleared hmem
          exact hhead ((triagePoll_remaining texts codec now grace rest left
            cleared).subset hmem)
        constructor
        · intro hterminal
          simp [triagePoll, hrow, hterminal, hgone]
        · intro hactive
          simp [triagePoll, hrow, hactive]
      · have hlater : id ∈ rest := by
          rcases List.mem_cons.mp hid with heq | hmem
          · exact absurd heq.symm hsame
          · exact hmem
        unfold triagePoll
        split
        · have hdecides := ih _ (absent.remove head) hrest hlater
            ((find?_filter_ne hsame).trans hrow)
          dsimp only
          split
          · exact hdecides.item _
          · exact hdecides.wait hsame
        · split
          · split
            · exact (ih present _ hrest hlater hrow).item _
            · exact (ih present _ hrest hlater hrow).wait hsame
          · exact (ih present _ hrest hlater hrow).wait hsame

theorem distinctIds_nodup (ids : List String) : (distinctIds ids).Nodup := by
  induction ids with
  | nil => exact List.nodup_nil
  | cons id rest ih =>
      refine List.nodup_cons.mpr ⟨?_, ih.filter _⟩
      simp

theorem mem_distinctIds {ids : List String} {id : String} :
    id ∈ distinctIds ids ↔ id ∈ ids := by
  induction ids with
  | nil => rfl
  | cons head rest ih =>
      rw [distinctIds, List.mem_cons, List.mem_cons, List.mem_filter, ih]
      by_cases hsame : id = head <;> simp [hsame]

theorem waitStep_remaining {wait next : Wait} {poll : WaitPoll}
    {items : List (WaitItem O Id)}
    (h : waitStep texts codec wait poll = some (items, next)) :
    next.remaining.Sublist wait.remaining := by
  unfold waitStep at h
  split at h
  · cases h
  · split at h
    · split at h
      · cases h
        exact List.nil_sublist _
      · cases h
        exact List.Sublist.refl _
    · dsimp only at h
      split at h <;> cases h <;> exact triagePoll_remaining _ _ _ _ _ _ _

theorem waitRun_remaining (wait : Wait) (polls : List WaitPoll) :
    (waitRun texts codec wait polls).2.remaining.Sublist wait.remaining := by
  induction polls generalizing wait with
  | nil => exact List.Sublist.refl _
  | cons poll polls ih =>
      unfold waitRun
      split
      · exact List.Sublist.refl _
      · rename_i items next hstep
        exact (ih next).trans (waitStep_remaining texts codec hstep)

theorem waitForCompletion_nodup (taskIds : List Id) (polls : List WaitPoll) :
    (waitForCompletion texts codec taskIds polls).2.remaining.Nodup :=
  (waitRun_remaining texts codec _ polls).nodup (distinctIds_nodup _)

theorem find?_trackedTaskRows (db : Db) {id : String} {ids : List String}
    (hid : id ∈ ids) :
    ((trackedTaskRows db ids).find? fun row => row.id = id) =
      (db.jobs.get? id).map JobRow.tracked := by
  have hfind : (db.jobs.rows.find? fun row =>
      ids.contains row.id = true ∧ decide (row.id = id) = true) =
        db.jobs.get? id := by
    rw [Table.get?]
    congr 1
    funext other
    by_cases hother : other.id = id <;> simp [hother, hid]
  rw [trackedTaskRows, List.find?_map, List.find?_filter]
  exact congrArg (Option.map JobRow.tracked) hfind

/-- One successful poll on a database that stores the row of an awaited id. -/
theorem waitStep_decides {wait : Wait} {db : Db} {id : String} {row : JobRow}
    (now : Nat) (hnodup : wait.remaining.Nodup) (hid : id ∈ wait.remaining)
    (hget : db.jobs.get? id = some row) :
    ∃ items next, waitStep texts codec wait ⟨.ok db, now⟩ =
        some (items, next) ∧
      (terminal row = true →
        taskResultFromRow texts codec row.taskResultRow ∈ items ∧
          id ∉ next.remaining) ∧
      (terminal row = false → id ∈ next.remaining) := by
  have hdecides := triagePoll_decides texts codec now initialBackoff
    wait.remaining (trackedTaskRows db wait.remaining) wait.absentSince hnodup
    hid ((find?_trackedTaskRows db hid).trans (congrArg _ hget))
  have hsome : wait.remaining.isEmpty = false := by
    rw [List.isEmpty_eq_false_iff_exists_mem]
    exact ⟨id, hid⟩
  have hyields : terminal row = true →
      taskResultFromRow texts codec row.taskResultRow ∈
          (triagePoll texts codec now initialBackoff wait.remaining
            (trackedTaskRows db wait.remaining) wait.absentSince).items ∧
        id ∉ (triagePoll texts codec now initialBackoff wait.remaining
          (trackedTaskRows db wait.remaining) wait.absentSince).remaining := by
    intro hterminal
    have hyield := hdecides.yields hterminal
    have hsame : row.tracked.toTaskResultRow = row.taskResultRow := by
      simp [JobRow.tracked, TrackedTaskRow.toTaskResultRow,
        JobRow.taskResultRow, hterminal]
    rwa [hsame] at hyield
  simp only [waitStep, hsome, Bool.false_eq_true, if_false]
  split
  · rename_i hempty
    refine ⟨_, _, rfl, ?_, hdecides.keeps⟩
    intro hterminal
    have hmem := (hyields hterminal).1
    rw [List.isEmpty_iff.mp hempty] at hmem
    cases hmem
  · exact ⟨_, _, rfl, hyields, hdecides.keeps⟩

/-- Transient errors of the database do not end a wait. -/
theorem waitRun_failures (wait : Wait) (polls : List WaitPoll)
    (hfailed : ∀ poll ∈ polls, ∃ error, poll.read = .error error)
    (hfew : wait.errorStreak + polls.length < maxConsecutiveDbErrors) :
    (waitRun texts codec wait polls).2.remaining = wait.remaining := by
  induction polls generalizing wait with
  | nil => rfl
  | cons poll polls ih =>
      obtain ⟨error, hread⟩ := hfailed poll List.mem_cons_self
      by_cases hempty : wait.remaining.isEmpty = true
      · simp [waitRun, waitStep, hempty]
      · have hlasts : dbErrorsExhausted wait.errorStreak
            maxConsecutiveDbErrors = false := by
          simp only [List.length_cons] at hfew
          simp only [dbErrorsExhausted, decide_eq_false_iff_not]
          omega
        have hstep : waitStep texts codec wait poll = some ([], { wait with
            backoff := nextBackoff wait.backoff maxBackoff
            errorStreak := wait.errorStreak + 1 }) := by
          simp [waitStep, hempty, hread, hlasts]
        simp only [waitRun, hstep]
        apply ih
        · intro other hother
          exact hfailed other (List.mem_cons_of_mem _ hother)
        · simp only [List.length_cons] at hfew
          dsimp only
          omega

end

/-- The row a committed acknowledgement left. -/
structure AckTaskUpdate.Stored (update : AckTaskUpdate) (row : JobRow) :
    Prop where
  status : row.status = update.status
  attempts : row.attempts = update.attempts
  lastResult : row.lastResult = update.result

theorem ackTask_stored {update : AckTaskUpdate} {view : Db} :
    (ackTask update).Issues sql (fun _ _ => True)
      (fun _ after => ∃ row, after.jobs.get? update.taskId = some row ∧
        update.Stored row) view := by
  have hwrite : ∀ view, (query "acknowledging task" (.ackTask update) >>=
      fun count => if count = 0 then
          .rollback (.staleAcknowledgement update.taskId update.queue
            update.workerId)
        else (pure () : Tx Unit)).Issues sql (fun _ _ => True)
      (fun _ after => ∃ row, after.jobs.get? update.taskId = some row ∧
        update.Stored row) view := by
    intro view
    apply issues_query trivial
    intro env count changes hexec
    have hplan := (exec_ok hexec).1
    simp only [Stmt.plan, Except.ok.injEq, Prod.mk.injEq] at hplan
    obtain ⟨hcount, heffects⟩ := hplan
    split
    · trivial
    · rename_i hmatched
      rw [← hcount, List.length_eq_zero_iff] at hmatched
      obtain ⟨row, hrow⟩ := List.exists_mem_of_ne_nil _ hmatched
      obtain ⟨hstored, hkept⟩ := List.mem_filter.mp hrow
      have hid := (acknowledgeable_iff.mp hkept).2.1
      refine ⟨ackRow env.now update row, ?_, ⟨rfl, rfl, rfl⟩⟩
      have hafter := get?_updated hexec heffects.symm update.taskId
      rw [← hid, Table.get?_of_mem hstored] at hafter
      rw [← hid]
      simpa [hkept] using hafter
  unfold ackTask
  dsimp only
  split
  · refine ⟨trivial, ?_⟩
    intro env registration changes _
    simp only [Program.pure_eq, Program.bind]
    split
    · exact hwrite _
    · trivial
  · exact hwrite view

/-- What a committed acknowledgement stored for its handler's result. -/
theorem acknowledge_stored {rows : TaskConversion} {system : System}
    {invocation : Invocation} {token : Option String} {res : HandlerResult}
    {parts : Parts} {value : Outcome}
    (hop : invocation.op = .acknowledge token res parts)
    (hok : (system.execute rows invocation).outcome = .ok value) :
    ∃ (update : AckTaskUpdate) (row : JobRow),
      update.Acknowledges token res parts ∧
      (system.step rows invocation).db.jobs.get? update.taskId = some row ∧
      update.Stored row := by
  have hissues : (program rows (.acknowledge token res parts)).Issues sql
      (fun _ _ => True) (fun _ after => ∃ (update : AckTaskUpdate)
        (row : JobRow), update.Acknowledges token res parts ∧
          after.jobs.get? update.taskId = some row ∧ update.Stored row)
      system.db := by
    apply Program.issues_bind
    unfold acknowledge
    cases hupdate : ackUpdate token res parts with
    | error error => trivial
    | ok update =>
        refine ackTask_stored.mono ?_
        rintro _ after ⟨row, hget, hstored⟩
        exact ⟨update, row, ackUpdate_ok hupdate, hget, hstored⟩
  rw [← hop] at hissues
  exact hissues.commits invocation.env hok

section

variable {O Id : Type} (texts : TaskTexts Id) (codec : ResultCodec O)

/-- Both readers hand out the result of a stored row, wherever the row is
stored: `check_status` at once, and a wait that still awaits the task on its
next successful poll. -/
structure ReadsResult (row : JobRow) (taskId : Id)
    (result : Except String O) : Prop where
  checked : ∀ db, db.jobs.get? (texts.toText taskId) = some row →
    checkStatus texts codec (.ok db) [taskId] =
      .ok [⟨taskId, row.status, result⟩]
  /-- every wait awaits its tasks through transient errors -/
  awaited : ∀ taskIds polls, taskId ∈ taskIds →
    (∀ poll ∈ polls, ∃ error, poll.read = .error error) →
    polls.length < maxConsecutiveDbErrors →
    texts.toText taskId ∈
      (waitForCompletion texts codec taskIds polls).2.remaining
  waited : ∀ db taskIds polls now,
    db.jobs.get? (texts.toText taskId) = some row →
    texts.toText taskId ∈
      (waitForCompletion texts codec taskIds polls).2.remaining →
    ∃ items next, waitStep texts codec
        (waitForCompletion texts codec taskIds polls).2 ⟨.ok db, now⟩ =
          some (items, next) ∧
      .ok ⟨taskId, row.status, result⟩ ∈ items ∧
      texts.toText taskId ∉ next.remaining

/-- Neither reader reports the row: a wait keeps waiting for its task. -/
structure ReadsLater (row : JobRow) (taskId : Id) : Prop where
  checked : ∀ db, db.jobs.get? (texts.toText taskId) = some row →
    checkStatus texts codec (.ok db) [taskId] = .ok []
  waited : ∀ db taskIds polls now,
    db.jobs.get? (texts.toText taskId) = some row →
    texts.toText taskId ∈
      (waitForCompletion texts codec taskIds polls).2.remaining →
    ∃ items next, waitStep texts codec
        (waitForCompletion texts codec taskIds polls).2 ⟨.ok db, now⟩ =
          some (items, next) ∧
      texts.toText taskId ∈ next.remaining

theorem readsResult_of_terminal {row : JobRow} {taskId : Id} {value : Json}
    {result : Except String O} (hid : row.id = texts.toText taskId)
    (hterminal : terminal row = true) (hvalue : row.lastResult = some value)
    (hresult : codec.fromValue value = .ok result) :
    ReadsResult texts codec row taskId result := by
  have hread := taskResultFromRow_ok texts codec hid hvalue hresult
  refine ⟨?_, ?_, ?_⟩
  · intro db hget
    rw [checkStatus_singleton texts codec hget, if_pos hterminal, hread]
    rfl
  · intro taskIds polls hmem hfailed hfew
    rw [waitForCompletion, waitRun_failures texts codec _ polls hfailed
      (by simpa [waitStart] using hfew)]
    exact mem_distinctIds.mpr (List.mem_map_of_mem hmem)
  · intro db taskIds polls now hget hawaited
    obtain ⟨items, next, hstep, hyields, _⟩ := waitStep_decides texts codec now
      (waitForCompletion_nodup texts codec taskIds polls) hawaited hget
    rw [hread] at hyields
    exact ⟨items, next, hstep, hyields hterminal⟩

theorem readsLater_of_active {row : JobRow} {taskId : Id}
    (hactive : terminal row = false) : ReadsLater texts codec row taskId := by
  refine ⟨?_, ?_⟩
  · intro db hget
    rw [checkStatus_singleton texts codec hget, if_neg (by simp [hactive])]
  · intro db taskIds polls now hget hawaited
    obtain ⟨items, next, hstep, _, hkeeps⟩ := waitStep_decides texts codec now
      (waitForCompletion_nodup texts codec taskIds polls) hawaited hget
    exact ⟨items, next, hstep, hkeeps hactive⟩

/-- What an acknowledgement stores for a handler's result reads back as the
result a reader is owed. -/
theorem buildAckResponse_reads {result : Except String O}
    {stored : Option Json}
    (h : buildAckResponse (codec.handlerResult result) = .ok stored) :
    ∃ value, stored = some value ∧
      codec.fromValue value = .ok (persistedResult result) := by
  cases result with
  | error message =>
      cases h
      exact ⟨_, rfl, codec.err_roundTrip _⟩
  | ok output =>
      simp only [ResultCodec.handlerResult] at h
      cases hvalue : codec.toValue output with
      | error message =>
          rw [hvalue] at h
          cases h
      | ok value =>
          rw [hvalue] at h
          cases h
          exact ⟨_, rfl, codec.ok_roundTrip hvalue⟩

end

theorem terminal_result_some {row : JobRow} (h : row.ResultShaped)
    (hterminal : terminal row = true) :
    ∃ value, row.lastResult = some value := by
  simp only [terminal, Bool.or_eq_true, Bool.and_eq_true,
    decide_eq_true_eq] at hterminal
  rcases hterminal with (hdone | hkilled) | ⟨hfailed, _⟩
  · obtain ⟨value, hvalue⟩ := h.done hdone
    exact ⟨_, hvalue⟩
  · obtain ⟨message, hmessage⟩ := h.ended (Or.inr hkilled)
    exact ⟨_, hmessage⟩
  · obtain ⟨message, hmessage⟩ := h.ended (Or.inl hfailed)
    exact ⟨_, hmessage⟩

/-- An acknowledged row that is not terminal is a failure with budget left. -/
theorem AckTaskUpdate.Stored.retryable {update : AckTaskUpdate} {row : JobRow}
    {token : Option String} {res : HandlerResult} {parts : Parts}
    (h : update.Stored row) (hupdate : update.Acknowledges token res parts)
    (hactive : terminal row = false) :
    row.status = .failed ∧ row.attempts < row.maxAttempts := by
  have hstatus : row.status = .done ∨ row.status = .failed ∨
      row.status = .killed := by
    rw [h.status, hupdate.status, calculateStatus]
    split
    · exact Or.inl rfl
    · split
      · exact Or.inr (Or.inl rfl)
      · exact Or.inr (Or.inr rfl)
  rcases hstatus with hdone | hfailed | hkilled
  · simp [terminal, hdone] at hactive
  · simpa [terminal, hfailed] using hactive
  · simp [terminal, hkilled] at hactive

/-- In every run, a finished row stores the result of its status, and nothing
terminal lacks a field when it is read.  The result of every committed
acknowledgement is read back exactly, with the row's id and status, once the
row is terminal; a failure that will be retried is not reported yet. -/
theorem acknowledged_results_read_back {rows : TaskConversion}
    {admits : System → Op → Prop} {system : System}
    (h : Reachable rows admits system) :
    (∀ row ∈ system.db.jobs.rows, row.ResultShaped ∧
      (terminal row = true → ∀ {O Id : Type} (texts : TaskTexts Id)
        (codec : ResultCodec O) (field : String),
        taskResultFromRow texts codec row.taskResultRow ≠
          .error (.missingField field))) ∧
    ∀ {O Id : Type} (texts : TaskTexts Id) (codec : ResultCodec O)
      (invocation : Invocation) (token : Option String)
      (result : Except String O) (parts : Parts) (taskId : Id)
      (value : Outcome),
      invocation.op = .acknowledge token (codec.handlerResult result) parts →
      parts.taskId = some (texts.toText taskId) →
      (system.execute rows invocation).outcome = .ok value →
      ∃ row, (system.step rows invocation).db.jobs.get?
          (texts.toText taskId) = some row ∧
        (terminal row = true →
          ReadsResult texts codec row taskId (persistedResult result)) ∧
        (terminal row = false →
          row.status = .failed ∧ row.attempts < row.maxAttempts ∧
            ReadsLater texts codec row taskId) := by
  refine ⟨?_, ?_⟩
  · intro row hrow
    have hshaped := h.resultShaped row hrow
    refine ⟨hshaped, ?_⟩
    intro hterminal O Id texts codec field
    obtain ⟨value, hvalue⟩ := terminal_result_some hshaped hterminal
    exact taskResultFromRow_ne_missingField texts codec hvalue field
  · intro O Id texts codec invocation token result parts taskId value hop hid
      hok
    obtain ⟨update, row, hupdate, hget, hstored⟩ := acknowledge_stored hop hok
    have htask : update.taskId = texts.toText taskId :=
      Option.some.inj (hupdate.taskId.symm.trans hid)
    rw [htask] at hget
    obtain ⟨json, hjson, hdecoded⟩ := buildAckResponse_reads codec
      hupdate.result
    refine ⟨row, hget, ?_, ?_⟩
    · intro hterminal
      exact readsResult_of_terminal texts codec (Table.key_of_get? hget)
        hterminal (hstored.lastResult.trans hjson) hdecoded
    · intro hactive
      obtain ⟨hfailed, hbudget⟩ := hstored.retryable hupdate hactive
      exact ⟨hfailed, hbudget, readsLater_of_active texts codec hactive⟩

/-- The text of a `Ulid`: 26 characters of its alphabet. -/
def isUlidText (text : String) : Bool :=
  text.length == 26 && text.toList.all fun c =>
    "0123456789ABCDEFGHJKMNPQRSTVWXYZ".toList.contains c

/-- A `Ulid` by the text it prints. -/
abbrev UlidText := { text : String // isUlidText text = true }

/-- The texts of ids in their canonical form. -/
def TaskTexts.canonical : TaskTexts UlidText where
  toText id := id.val
  taskIdFromStr text :=
    if h : isUlidText text = true then .ok ⟨text, h⟩
    else .error "invalid task id"
  statusFromStr text :=
    if text = "Pending" then .ok .pending
    else if text = "Queued" then .ok .queued
    else if text = "Running" then .ok .running
    else if text = "Done" then .ok .done
    else if text = "Failed" then .ok .failed
    else if text = "Killed" then .ok .killed
    else .error "unknown status"
  taskId_roundTrip id := dif_pos id.property
  status_roundTrip status := by cases status <;> rfl

/-- The codec of handlers that return a JSON value. -/
def ResultCodec.json : ResultCodec Json where
  toValue := .ok
  fromValue
    | .obj [("Ok", value)] => .ok (.ok value)
    | .obj [("Err", .str text)] => .ok (.error text)
    | _ => .error "not a result"
  ok_roundTrip h := by
    cases h
    rfl
  err_roundTrip _ := rfl

def sampleUlid : UlidText :=
  ⟨"01HABCDEFGHJKMNPQRSTVWXYZ0", rfl⟩

/-- A worker registers and claims a task of the given budget. -/
def claimedSample (maxAttempts : Int) : System :=
  let task : NewJob :=
    { sampleTask with id := sampleUlid.val, maxAttempts := maxAttempts }
  [Invocation.mk (.registerWorker "worker" "queue" storageName "" "token" 30)
      quietEnv,
    ⟨.pushTasksOnConn "queue" [task], quietEnv⟩,
    ⟨.fetchNext "worker" "queue" 10 (some "token"), quietEnv⟩].foldl
    (System.step TaskConversion.copying) .initial

/-- Its handler fails. -/
def failedSample (maxAttempts : Int) : Invocation :=
  ⟨.acknowledge (some "token") (ResultCodec.json.handlerResult (.error "boom"))
    (recordClaim ⟨some sampleUlid.val, ⟨maxAttempts, some 1, some "worker",
      some "queue"⟩, 0, none⟩), quietEnv⟩

/-- The only attempt fails: the row is `Killed`, and the error is read back. -/
theorem acknowledged_results_read_back_killed :
    ((claimedSample 1).execute TaskConversion.copying
      (failedSample 1)).outcome = .ok .done ∧
    ∃ row, ((claimedSample 1).step TaskConversion.copying
        (failedSample 1)).db.jobs.get? sampleUlid.val = some row ∧
      row.status = .killed ∧
      ReadsResult TaskTexts.canonical ResultCodec.json row sampleUlid
        (.error "boom") := by
  have hreachable : Reachable TaskConversion.copying (fun _ _ => True)
      (claimedSample 1) :=
    .step (.step (.step .initial _ trivial) _ trivial) _ trivial
  have hok : ((claimedSample 1).execute TaskConversion.copying
      (failedSample 1)).outcome = .ok .done := rfl
  obtain ⟨row, hget, hreads, _⟩ := (acknowledged_results_read_back
    hreachable).2 TaskTexts.canonical ResultCodec.json (failedSample 1)
    (some "token") (.error "boom") _ sampleUlid .done rfl rfl hok
  have hstatus : (((claimedSample 1).step TaskConversion.copying
      (failedSample 1)).db.jobs.get? sampleUlid.val).map JobRow.status =
        some .killed := by decide +kernel
  have hkilled : row.status = .killed := by
    have hmapped := (congrArg (Option.map JobRow.status) hget).symm.trans
      hstatus
    exact Option.some.inj hmapped
  exact ⟨hok, row, hget, hkilled, hreads (by simp [terminal, hkilled])⟩

/-- The first of two attempts fails: the acknowledgement commits, yet
`check_status` returns no result and a wait yields none. -/
theorem acknowledged_retry_not_reported :
    ((claimedSample 2).execute TaskConversion.copying
      (failedSample 2)).outcome = .ok .done ∧
    checkStatus TaskTexts.canonical ResultCodec.json
      (.ok ((claimedSample 2).step TaskConversion.copying
        (failedSample 2)).db) [sampleUlid] = .ok [] ∧
    (waitForCompletion TaskTexts.canonical ResultCodec.json [sampleUlid]
      [⟨.ok ((claimedSample 2).step TaskConversion.copying
        (failedSample 2)).db, 0⟩]).1 = [] :=
  ⟨rfl, rfl, rfl⟩

end ApalisPostgres
