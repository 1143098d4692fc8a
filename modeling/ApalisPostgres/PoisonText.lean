/-
The texts of failures in `last_result`.  A `jsonb` column refuses U+0000, and
the truncation of a text keeps it: a failure whose text holds one among the
bytes that are kept cannot be written, and its claim is not released.
-/
import ApalisPostgres.ColumnValues
import ApalisPostgres.BatchClaims
import ApalisPostgres.BatchInsert
import ApalisPostgres.UndecodableRows
import ApalisPostgres.UndisturbedClaims
import ApalisPostgres.Truncation

namespace ApalisPostgres

open RowStore

/-- Whether U+0000 begins within the first `limit` bytes. -/
def nulWithin : List Char → Nat → Bool
  | [], _ => false
  | _ :: _, 0 => false
  | c :: rest, limit + 1 =>
      c = Char.ofNat 0 || nulWithin rest (limit + 1 - c.utf8Size)

theorem contains_truncateBytes (text : List Char) (n : Nat) :
    (truncateBytes text n).contains (Char.ofNat 0) = nulWithin text n := by
  induction text generalizing n with
  | nil => cases n <;> rfl
  | cons c rest ih =>
      cases n with
      | zero => rfl
      | succ n =>
          simp only [truncateBytes, nulWithin]
          by_cases hnul : c = Char.ofNat 0
          · subst hnul
            have hone : (Char.ofNat 0).utf8Size ≤ n + 1 := by
              have : (Char.ofNat 0).utf8Size = 1 := by decide
              omega
            simp [hone]
          · have hother : ¬ Char.ofNat 0 = c := fun h => hnul h.symm
            split
            · simp [hnul, hother, ← ih]
            · rename_i hlong
              have hnone : n + 1 - c.utf8Size = 0 := by omega
              rw [hnone]
              cases rest <;> simp [hnul, nulWithin]

/-- The scan of a text that fits is the scan of all of it. -/
theorem nulWithin_of_le (text : List Char) (limit : Nat)
    (h : (text.map Char.utf8Size).sum ≤ limit) :
    nulWithin text limit = text.contains (Char.ofNat 0) := by
  induction text generalizing limit with
  | nil => rfl
  | cons c rest ih =>
      have hpos : 0 < c.utf8Size := c.utf8Size_pos
      simp only [List.map_cons, List.sum_cons] at h
      obtain ⟨limit, rfl⟩ : ∃ bytes, limit = bytes + 1 :=
        ⟨limit - 1, by omega⟩
      simp only [nulWithin, List.contains_cons]
      rw [ih _ (by omega)]
      by_cases hnul : c = Char.ofNat 0
      · simp [hnul]
      · have hother : ¬ Char.ofNat 0 = c := fun h => hnul h.symm
        simp [hnul, hother]

theorem textAccepts_truncateErrorPayload (text : String) :
    textAccepts (truncateErrorPayload text) =
      !nulWithin text.toList maxErrorPayloadLen := by
  unfold truncateErrorPayload textAccepts
  split
  · rw [String.toList_append, String.toList_ofList,
      truncateBytes_walkBackToBoundary]
    have hmarker : truncationMarker.toList.contains (Char.ofNat 0) = false := by
      decide
    rw [List.contains_append, contains_truncateBytes, hmarker, Bool.or_false]
  · rename_i hfits
    rw [nulWithin_of_le]
    rw [← utf8ByteSize_ofList, String.ofList_toList]
    omega

/-- The documents a statement binds for `last_result`. -/
def Stmt.boundResults : Stmt → List Json
  | .quarantine _ result => [result]
  | .failUndecodableTask _ _ result _ _ => [result]
  | .ackTask update => update.result.toList
  | _ => []

/-- The refusal of a statement that binds a document `jsonb` refuses. -/
def Stmt.refusedResult (stmt : Stmt) : Option DieselError :=
  if stmt.boundResults.all jsonbAccepts then none else some unicodeEscapeFault

/-- The statements over a server that checks the documents they bind. -/
def jsonbSql : StatementModel Stmt Stmt.Result Db Env Effect DieselError Error :=
  sql.guarded Stmt.refusedResult

/-- Where the text of a failure comes from. -/
inductive FailureSource where
  | handler
  | codec
  | conversion
deriving Repr, DecidableEq

/-- The failure, displayed. -/
def FailureSource.display : FailureSource → String → String
  | .handler, text => text
  | .codec, text => Fetcher.decodeErrorText text
  | .conversion, text => rowErrorText text

/-- The document its writer binds. -/
def FailureSource.bound (source : FailureSource) (text : String) : Json :=
  errResult (truncateErrorPayload (source.display text))

/-- What the dispatch learns of its acknowledgement. -/
def ackReply : Except Error Unit → AckReply
  | .ok () => .acknowledged
  | .error _ => .failed

/-- The row left its claim through its budget. -/
structure LeavesClaim (row : JobRow) (result : Json) (after : Option JobRow) :
    Prop where
  left : ∃ next, after = some next ∧ next.attempts = row.attempts + 1 ∧
    next.status = (if row.attempts + 1 < row.maxAttempts then .failed
      else .killed) ∧ next.lastResult = some result

/-- A handler that fails with the text: the acknowledgement of a held claim
commits, and its dispatch keeps the lease. -/
def HandlerContained (text : String) : Prop :=
  ∀ {db : Db} {worker : String} {token : Option String} {started : Bool}
    {task : Task} {row : JobRow} (attempt : Nat) (env : Nat → Env),
    StandingClaim db worker token started task row →
    let stop := (acknowledge token (.err text)
      (task.partsWith attempt)).execute jsonbSql env db
    LeavesClaim row (FailureSource.handler.bound text)
        (stop.view.jobs.get? row.id) ∧
      ∀ (dispatch : Dispatch) (shared : Shared) (ackGuard : ClaimObligation),
        (dispatch.ackReplied shared ackGuard
          (ackReply stop.outcome)).1.retired = shared.retired

/-- A codec that fails with the text: the release of a held claim commits,
and the decode stage keeps the lease. -/
def CodecContained (text : String) : Prop :=
  ∀ {db : Db} {worker : String} {token : Option String} {started : Bool}
    {task : Task} {row : JobRow} {seconds : Int} (env : Nat → Env),
    StandingClaim db worker token started task row →
    row.lockAt = some (toTimestamp seconds) →
    let stop := (failUndecodableTask row.id worker seconds row.attempts
      (Fetcher.decodeErrorText text) token).execute jsonbSql env db
    LeavesClaim row (FailureSource.codec.bound text)
        (stop.view.jobs.get? row.id) ∧
      ∀ {Args : Type} (system : Fetcher.DecodeSystem Args)
        (obligation : Fetcher.ReleaseObligation) (round : Fetcher.Round Args)
        (failedAt checkedAt : Nat),
        (system.settleRelease obligation round
          ⟨stop.view, stop.effects, stop.outcome⟩ failedAt
          checkedAt).lease = system.lease

/-- Rows that do not convert with the text: the claim transaction isolates
them, delivers the rest and keeps the lease. -/
def ConversionContained (text : String) : Prop :=
  ∀ (rows : TaskConversion) {claimed : List JobRow} {view : Db}
    (env : Nat → Env) (n : Nat) (effects : List Effect) (worker : String),
    (∀ row ∈ claimed, view.jobs.get? row.id = some row ∧
      row.active = true ∧ row.Budgeted ∧ row.Storable) →
    (claimed.map JobRow.id).Nodup →
    (∀ row ∈ claimed, ∀ message,
      rows.tryIntoTaskCompact row = .error message → message = text ∨
        jsonbAccepts (FailureSource.conversion.bound message) = true) →
    let stop := (claimedTasks rows claimed).runBody jsonbSql env n view effects
    ∃ tasks, stop.outcome = .ok tasks ∧
      ApalisPostgres.Isolated rows claimed view tasks stop.view ∧
      (LeaseStream.pollNext worker ⟨false, false⟩
        (.item stop.outcome)).1.retired = false

/-- The failure is contained: its document is accepted, so that its claim is
released and the worker keeps its lease. -/
structure Contained (source : FailureSource) (text : String) : Prop where
  accepted : jsonbAccepts (source.bound text) = true
  released : match source with
    | .handler => HandlerContained text
    | .codec => CodecContained text
    | .conversion => ConversionContained text

theorem bound_accepted_iff (source : FailureSource) (text : String) :
    jsonbAccepts (source.bound text) = true ↔
      nulWithin (source.display text).toList maxErrorPayloadLen = false := by
  rw [FailureSource.bound, jsonbAccepts_errResult,
    textAccepts_truncateErrorPayload]
  simp

section

variable {text : String} {view : Db}

/-- No statement of an acknowledgement is refused whose document is
accepted. -/
theorem acknowledge_accepted {res : HandlerResult} {result : Option Json}
    (hbuilt : buildAckResponse res = .ok result)
    (h : result.toList.all jsonbAccepts = true) (token : Option String)
    (parts : Parts) :
    (acknowledge token res parts).Issues sql
      (fun _ stmt => stmt.refusedResult = none) (fun _ _ => True) view := by
  unfold acknowledge
  cases hupdate : ackUpdate token res parts with
  | error error => trivial
  | ok update =>
      have hresult : update.result = result :=
        Except.ok.inj ((ackUpdate_ok hupdate).result.symm.trans hbuilt)
      have hwrite (view : Db) : (query "acknowledging task"
          (.ackTask update) >>= fun count => if count = 0 then
            .rollback (.staleAcknowledgement update.taskId update.queue
              update.workerId)
          else (pure () : Tx Unit)).Issues sql
            (fun _ stmt => stmt.refusedResult = none) (fun _ _ => True)
            view := by
        apply issues_query
        · simp [Stmt.refusedResult, Stmt.boundResults, hresult, h]
        · intro env count changes _
          show Program.Issues _ _ _ (if _ then _ else _) _
          split <;> trivial
      unfold ackTask
      dsimp only
      split
      · apply Program.issues_bind
        apply issues_query rfl
        intro env registration changes _
        show Program.Issues _ _ _ (if _ then _ else _) _
        split
        · exact hwrite _
        · trivial
      · exact hwrite _

/-- No statement of a release is refused. -/
theorem failUndecodableTask_accepted
    (h : jsonbAccepts (FailureSource.codec.bound text) = true)
    (taskId worker : String) (lockAt attempts : Int) (token : Option String) :
    (failUndecodableTask taskId worker lockAt attempts
      (Fetcher.decodeErrorText text) token).Issues sql
      (fun _ stmt => stmt.refusedResult = none) (fun _ _ => True) view := by
  have hrelease (view : Db) : (query "failing undecodable task"
      (.failUndecodableTask taskId worker
        (errResult (truncateErrorPayload (Fetcher.decodeErrorText text)))
        lockAt attempts)).Issues sql
        (fun _ stmt => stmt.refusedResult = none) (fun _ _ => True) view := by
    refine ⟨?_, fun _ _ _ _ => trivial⟩
    have hbound : jsonbAccepts (errResult (truncateErrorPayload
        (Fetcher.decodeErrorText text))) = true := h
    simp [Stmt.refusedResult, Stmt.boundResults, hbound]
  unfold failUndecodableTask
  cases token with
  | none => exact hrelease view
  | some token =>
      apply issues_query rfl
      intro env located changes _
      cases located with
      | none => trivial
      | some queue =>
          apply Program.issues_bind
          apply issues_query rfl
          intro env registration changes _
          show Program.Issues _ _ _ (if _ then _ else _) _
          split
          · exact hrelease _
          · trivial

/-- No statement of a conversion is refused whose errors are all accepted. -/
theorem claimedTasks_accepted {rows : TaskConversion} {claimed : List JobRow}
    (h : ∀ row ∈ claimed, ∀ message,
      rows.tryIntoTaskCompact row = .error message →
      jsonbAccepts (FailureSource.conversion.bound message) = true) :
    (claimedTasks rows claimed).Issues sql
      (fun _ stmt => stmt.refusedResult = none) (fun _ _ => True) view := by
  induction claimed generalizing view with
  | nil => trivial
  | cons row rest ih =>
      have hrest (view : Db) := @ih view fun other hother =>
        h other (List.mem_cons_of_mem _ hother)
      unfold claimedTasks
      cases hconvert : rows.tryIntoTaskCompact row with
      | ok task =>
          apply Program.issues_bind
          exact (hrest view).mono fun _ _ _ => trivial
      | error message =>
          refine ⟨?_, fun _ _ _ _ => hrest _⟩
          have hbound : jsonbAccepts (errResult (truncateErrorPayload
              (rowErrorText message))) = true :=
            h row List.mem_cons_self message hconvert
          simp [Stmt.refusedResult, Stmt.boundResults, hbound]

theorem refusedResult_readOnly {stmt : Stmt} (h : stmt.readOnly = true) :
    stmt.refusedResult = none := by
  cases stmt with
  | quarantine _ _ | failUndecodableTask _ _ _ _ _ | ackTask _ => cases h
  | _ => rfl

/-- No statement of a poll is refused whose rows all convert. -/
theorem fetchNext_accepted {rows : TaskConversion} {worker queue : String}
    {bufferSize : Nat} {token : Option String}
    (h : ∀ {now : Timestamp} {selected : List JobRow},
      (∀ row ∈ selected, row ∈ view.jobs.rows) →
      ∀ row ∈ claimedRows worker now selected,
        ∃ task, rows.tryIntoTaskCompact row = .ok task) :
    (fetchNext rows worker queue bufferSize token).Issues sql
      (fun _ stmt => stmt.refusedResult = none) (fun _ _ => True) view := by
  unfold fetchNext
  apply Program.issues_bind
  refine (requireWorker_keeps (fun _ _ => refusedResult_readOnly) worker queue
    token).mono ?_
  rintro _ after rfl
  apply issues_query rfl
  intro env claimed changes hexec
  have hplan : Except.ok (claimedRows worker env.now ((claimSelection env view
      queue fun _ => true).take (clampI32 (max bufferSize 1))), _) =
        Except.ok (claimed, changes) := (exec_ok hexec).1
  cases hplan
  apply claimedTasks_accepted
  intro row hrow message hmessage
  obtain ⟨task, htask⟩ := h (fun other hother =>
    (mem_claimSelection (List.mem_of_mem_take hother)).1.stored) row hrow
  rw [htask] at hmessage
  cases hmessage

end

/-- A body that commits is its own transaction. -/
theorem execute_of_map {α β : Type} {f : α → β} {body : Tx α} {env : Nat → Env}
    {db view : Db} {effects : List Effect} {value : β}
    (h : (body >>= fun value => pure (f value)).execute sql env db =
      ⟨view, effects, .ok value⟩) :
    ∃ found, f found = value ∧
      (body.execute sql env db).outcome = .ok found ∧
      (body.execute sql env db).view = view := by
  obtain ⟨found, hfound, hvalue, hview⟩ :=
    Program.execute_map_ok (congrArg BodyEnd.outcome h)
  have hbody : body.execute sql env db = body.runBody sql env 0 db [] := by
    simp only [Program.execute, hfound]
  refine ⟨found, hvalue, ?_, ?_⟩
  · rw [hbody, hfound]
  · rw [hbody, ← hview, h]

theorem drop_disarm (guard : ClaimObligation) (shared : Shared) :
    guard.disarm.drop shared = shared := by
  unfold ClaimObligation.drop
  cases guard.disarm.claim.any shared.isAcknowledged <;> rfl

theorem handlerContained_of_accepted {text : String}
    (haccepted : jsonbAccepts (FailureSource.handler.bound text) = true) :
    HandlerContained text := by
  intro db worker token started task row attempt env h
  obtain ⟨update, hupdate, hmatch, -, hattempts⟩ :=
    @StandingClaim.update_ok _ _ _ _ _ _ h attempt (.err text) _ rfl
  obtain ⟨now, hexecutes⟩ := @StandingClaim.ack_executes
    .copying ⟨db, []⟩ _ _ _ _ _ _ _ _ env h hupdate hmatch hattempts
  obtain ⟨found, -, houtcome, hview⟩ := execute_of_map hexecutes
  have hacknowledges := ackUpdate_ok hupdate
  have hstored : (db.apply (updateJobs .acknowledge (ackRow now update)
      [row])).jobs.get? row.id = some (ackRow now update row) := by
    have hexec := h.exec_ackTask { quietEnv 0 with now := now } hacknowledges
      hmatch hattempts
    exact (exec_executed hexec).get?_updated List.mem_cons_self
  have hdocument : (some (FailureSource.handler.bound text)).toList.all
      jsonbAccepts = true := by
    simp [haccepted]
  dsimp only
  rw [show jsonbSql = sql.guarded Stmt.refusedResult from rfl,
    Program.execute_guarded (acknowledge_accepted rfl hdocument token _),
    hview, houtcome]
  refine ⟨⟨_, hstored, hattempts, ?_, ?_⟩, ?_⟩
  · have hmax := h.storable.maxAttempts_pos
    have hnonneg := h.budgeted.attempts_nonneg
    have hbudget : (task.partsWith attempt).ctx.maxAttempts =
        row.maxAttempts := by
      rw [show (task.partsWith attempt).ctx = task.parts.ctx from rfl,
        h.claimed.copies.maxAttempts]
      omega
    rw [show (ackRow now update row).status = update.status from rfl,
      hacknowledges.status, hbudget]
    simp only [calculateStatus, HandlerResult.isOk, Bool.false_eq_true,
      ↓reduceIte]
    have hcount : ((row.attempts + 1).toNat : Int) = row.attempts + 1 := by
      omega
    rw [hattempts, hcount]
    simp [hmax.le]
  · exact (Except.ok.inj hacknowledges.result).symm
  · intro dispatch shared ackGuard
    simp only [ackReply, Dispatch.ackReplied, Dispatch.finishAck,
      Dispatch.finish, drop_disarm]
    rfl

theorem codecContained_of_accepted {text : String}
    (haccepted : jsonbAccepts (FailureSource.codec.bound text) = true) :
    CodecContained text := by
  intro db worker token started task row seconds env h hlockAt
  obtain ⟨now, hexecutes⟩ := @StandingClaim.release_executes
    .copying ⟨db, []⟩ _ _ _ _ _ _ env (Fetcher.decodeErrorText text) h hlockAt
  obtain ⟨found, hfound, houtcome, hview⟩ := execute_of_map hexecutes
  cases hfound
  have hstored : (db.apply (updateJobs .undecodable (undecodableRow now
      (FailureSource.codec.bound text)) [row])).jobs.get? row.id =
        some (undecodableRow now (FailureSource.codec.bound text) row) := by
    have hexec := h.exec_failUndecodable { quietEnv 0 with now := now }
      (FailureSource.codec.bound text) hlockAt
    exact (exec_executed hexec).get?_updated List.mem_cons_self
  dsimp only
  rw [show jsonbSql = sql.guarded Stmt.refusedResult from rfl,
    Program.execute_guarded
      (failUndecodableTask_accepted haccepted _ _ _ _ token), hview, houtcome]
  have hlt := h.attempts_lt
  refine ⟨⟨_, hstored, ?_, ?_, rfl⟩, ?_⟩
  · simp only [undecodableRow, boundedIncrement]
    omega
  · simp only [undecodableRow]
    split <;> split <;> first | rfl | omega
  · intro Args system obligation round failedAt checkedAt
    rfl

/-- The quarantine of a claimed row is accepted. -/
theorem exec_quarantine_ok {view : Db} {row : JobRow} (env : Env)
    (result : Json) (hstored : view.jobs.get? row.id = some row)
    (hbudgeted : row.Budgeted) (hstorable : row.Storable) :
    (Stmt.quarantine row.id result).exec env view =
      .ok (1, updateJobs .quarantine (quarantineRow env.now result)
        [row]) := by
  have honly : ∀ other ∈ view.jobs.rows, decide (other.id = row.id) = true →
      other.id = row.id := by
    intro other _ hkept
    simpa using hkept
  have hkeep : decide (row.id = row.id) = true := by simp
  refine exec_one hstored hkeep ?_ honly ?_ ?_
  · simp only [Stmt.plan, length_filter_one hstored hkeep honly]
  · have hnonneg := hbudgeted.attempts_nonneg
    have hle := hbudgeted.attempts_le
    refine rowViolation_eq_none ⟨hstorable.maxAttempts_pos,
      hstorable.maxAttempts_le, hstorable.priority_nonneg,
      hstorable.priority_le⟩ ?_ ?_ ?_ ?_
    · simp only [quarantineRow, boundedIncrement]
      omega
    · simp only [quarantineRow, boundedIncrement]
      omega
    · simp [quarantineRow, JobRow.active]
    · simp [quarantineRow]
  · simp [quarantineRow]

/-- The conversion of claimed rows commits. -/
theorem claimedTasks_commits {rows : TaskConversion} {claimed : List JobRow}
    {view : Db} (env : Nat → Env) (n : Nat) (effects : List Effect)
    (hstored : ∀ row ∈ claimed, view.jobs.get? row.id = some row ∧
      row.Budgeted ∧ row.Storable)
    (hnodup : (claimed.map JobRow.id).Nodup) :
    ∃ tasks, ((claimedTasks rows claimed).runBody sql env n view
      effects).outcome = .ok tasks := by
  induction claimed generalizing view n effects with
  | nil => exact ⟨[], rfl⟩
  | cons row rest ih =>
      rw [List.map_cons, List.nodup_cons] at hnodup
      obtain ⟨hrow, hbudgeted, hstorable⟩ := hstored row List.mem_cons_self
      unfold claimedTasks
      cases hconvert : rows.tryIntoTaskCompact row with
      | ok task =>
          obtain ⟨tasks, htasks⟩ := ih n effects
            (fun other hother => hstored other (List.mem_cons_of_mem _ hother))
            hnodup.2
          refine ⟨{ task with parts := recordClaim task.parts } :: tasks, ?_⟩
          rw [Program.runBody_map, htasks]
          rfl
      | error message =>
          have hexec := exec_quarantine_ok (env n) (errResult
            (truncateErrorPayload (rowErrorText message))) hrow hbudgeted
            hstorable
          generalize updateJobs .quarantine _ [row] = changes at hexec
          have hran : sql.exec (.quarantine row.id (errResult
              (truncateErrorPayload (rowErrorText message)))) (env n) view =
                .ok (1, changes) := hexec
          have hothers := (exec_quarantine hran hrow).2.1
          have hrest : ∀ other ∈ rest,
              (view.apply changes).jobs.get? other.id = some other ∧ other.Budgeted ∧ other.Storable := by
            intro other hother
            obtain ⟨hget, hkept⟩ := hstored other
              (List.mem_cons_of_mem _ hother)
            refine ⟨?_, hkept⟩
            rw [hothers other.id, hget]
            intro hsame
            exact hnodup.1 (hsame ▸ List.mem_map_of_mem hother)
          obtain ⟨tasks, htasks⟩ :=
            ih (n + 1) (effects ++ changes) hrest hnodup.2
          refine ⟨tasks, ?_⟩
          dsimp only
          rw [query_bind, Program.runBody_statement hran]
          exact htasks

theorem conversionContained_of_accepted {text : String}
    (haccepted : jsonbAccepts (FailureSource.conversion.bound text) = true) :
    ConversionContained text := by
  intro rows claimed view env n effects worker hstored hnodup htexts
  have hall : ∀ row ∈ claimed, ∀ message,
      rows.tryIntoTaskCompact row = .error message →
      jsonbAccepts (FailureSource.conversion.bound message) = true := by
    intro row hrow message hmessage
    rcases htexts row hrow message hmessage with rfl | hbound
    · exact haccepted
    · exact hbound
  obtain ⟨tasks, htasks⟩ := @claimedTasks_commits rows claimed view env n
    effects (fun row hrow => ⟨(hstored row hrow).1, (hstored row hrow).2.2⟩)
    hnodup
  have hisolates := (@claimedTasks_isolates rows claimed view
    (fun row hrow => (hstored row hrow).1) hnodup).runBody env n htasks
  dsimp only
  rw [show jsonbSql = sql.guarded Stmt.refusedResult from rfl,
    Program.runBody_guarded (claimedTasks_accepted hall)]
  refine ⟨tasks, htasks, hisolates, ?_⟩
  rw [htasks]
  rfl

/-- A failure is contained exactly if no U+0000 begins among the bytes of its
text that are kept. -/
theorem poison_text_contained_iff (source : FailureSource) (text : String) :
    Contained source text ↔
      nulWithin (source.display text).toList maxErrorPayloadLen = false := by
  constructor
  · intro h
    exact (bound_accepted_iff source text).mp h.accepted
  · intro h
    have haccepted := (bound_accepted_iff source text).mpr h
    refine ⟨haccepted, ?_⟩
    cases source with
    | handler => exact handlerContained_of_accepted haccepted
    | codec => exact codecContained_of_accepted haccepted
    | conversion => exact conversionContained_of_accepted haccepted

/-- A handler that fails with U+0000: the server refuses the acknowledgement,
the row stays `Running` behind its claim, and the worker is retired. -/
theorem nul_text_strands_claim :
    let text := String.ofList [Char.ofNat 0]
    let db := ([
      ⟨.registerWorker "worker" "queue" storageName "" "token" 30, quietEnv⟩,
      ⟨.pushTasksOnConn "queue" [sampleTask], quietEnv⟩,
      ⟨.lockTaskWithToken sampleId "worker" (some "queue") (some "token"),
        quietEnv⟩].foldl (System.step .copying) .initial).db
    let parts := recordClaim
      ⟨some sampleId, ⟨2, some 1, some "worker", some "queue"⟩, 0, none⟩
    let stop := (acknowledge (some "token") (.err text) parts).execute jsonbSql
      quietEnv db
    let dispatch : Dispatch := ⟨parts, none, none, ⟨true, none⟩, .handling⟩
    ¬ Contained .handler text ∧
      ((acknowledge (some "token") (.err "x") parts).execute jsonbSql quietEnv
        db).outcome.isOk = true ∧
      stop.outcome = .error (.database "acknowledging task"
        unicodeEscapeFault) ∧
      (stop.view.jobs.get? sampleId).map JobRow.status = some .running ∧
      (dispatch.ackReplied ⟨false, fun _ => none⟩ ⟨true, none⟩
        (ackReply stop.outcome)).1.retired = true := by
  intro text db parts stop dispatch
  refine ⟨?_, by decide +kernel, by decide +kernel, by decide +kernel,
    by decide +kernel⟩
  intro h
  have haccepted := (bound_accepted_iff .handler text).mp h.accepted
  revert haccepted
  decide +kernel

end ApalisPostgres
