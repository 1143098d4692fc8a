/-
A caller of the outbox: business writes and enqueues in transactions nested to
any depth, of which any may fail.  What a run keeps is told by the steps of
the caller; the connection keeps exactly that, in the order of the steps, when
the outermost transaction commits, and nothing of it when it does not.
-/
import ApalisPostgres.OutboxCalls

namespace ApalisPostgres

open RowStore

/-- The caller between two points of its transactions.  Its own statements
read and write data beside the queue; one that fails ends the body around it
with its error, whereas the result of a call and of an inner transaction is
the caller's to look at.  The SAVEPOINT, RELEASE, COMMIT and ROLLBACK between
them are served: a lost connection is outside this model. -/
inductive OutboxCaller (Args Data ε ρ : Type) where
  | done (result : Except ε ρ)
  | write (change : Data → Except ε Data) (next : OutboxCaller Args Data ε ρ)
  | read (next : Db → Data → OutboxCaller Args Data ε ρ)
  | push (call : OutboxCall Args) (world : OutboxWorld)
      (next : Except Error (List Ulid) → OutboxCaller Args Data ε ρ)
  | transaction (body : OutboxCaller Args Data ε ρ)
      (next : Except ε ρ → OutboxCaller Args Data ε ρ)

/-- What a run keeps of one step of its caller. -/
inductive OutboxEntry (Data ε : Type) where
  | wrote (change : Data → Except ε Data)
  | enqueued (compact : List SubmittedTask) (ids : List Ulid)

namespace OutboxEntry

variable {Data ε : Type}

def rows (queue : String) : OutboxEntry Data ε → List JobRow
  | .wrote _ => []
  | .enqueued compact ids =>
      (outboxJobs compact ids).map fun job => job.row queue

def applied (data : Data) : OutboxEntry Data ε → Except ε Data
  | .wrote change => change data
  | .enqueued _ _ => .ok data

end OutboxEntry

variable {Args Data ε ρ : Type}

/-- The entries of a run lead from one view of the database to another. -/
structure Replayed (queue : String) (entries : List (OutboxEntry Data ε))
    (before after : Db × Data) : Prop where
  rows : after.1.jobs.rows =
    before.1.jobs.rows ++ entries.flatMap (OutboxEntry.rows queue)
  workers : after.1.workers = before.1.workers
  data : entries.foldlM OutboxEntry.applied before.2 = .ok after.2

theorem Replayed.nil (queue : String) (view : Db × Data) :
    Replayed queue ([] : List (OutboxEntry Data ε)) view view :=
  ⟨by simp, rfl, rfl⟩

theorem Replayed.append {queue : String}
    {first second : List (OutboxEntry Data ε)} {before middle after : Db × Data}
    (hfirst : Replayed queue first before middle)
    (hsecond : Replayed queue second middle after) :
    Replayed queue (first ++ second) before after := by
  constructor
  · rw [hsecond.rows, hfirst.rows, List.flatMap_append, List.append_assoc]
  · rw [hsecond.workers, hfirst.workers]
  · rw [List.foldlM_append, hfirst.data]
    exact hsecond.data

theorem Replayed.cons {queue : String} {entry : OutboxEntry Data ε}
    {rest : List (OutboxEntry Data ε)} {before middle after : Db × Data}
    (hentry : Replayed queue [entry] before middle)
    (hrest : Replayed queue rest middle after) :
    Replayed queue (entry :: rest) before after :=
  hentry.append hrest

namespace OutboxCaller

/-- The caller on a connection; `refused` is what it makes of the answer of a
blocked one. -/
def run (outbox : Outbox Args) (refused : ε) :
    OutboxCaller Args Data ε ρ → Connection (Db × Data) →
      Except ε ρ × Connection (Db × Data)
  | .done result, conn => (result, conn)
  | .write change next, conn =>
      if conn.blocked then (.error refused, conn)
      else
        match change conn.view.2 with
        | .error error => (.error error, conn.failed)
        | .ok data => next.run outbox refused
            { conn with view := (conn.view.1, data) }
  | .read next, conn =>
      if conn.blocked then (.error refused, conn)
      else (next conn.view.1 conn.view.2).run outbox refused conn
  | .push call world next, conn =>
      let pushed := call.run outbox world conn
      (next pushed.1).run outbox refused pushed.2
  | .transaction body next, conn =>
      let stop := conn.transaction refused (body.run outbox refused)
      (next stop.1).run outbox refused stop.2

/-- What a run of the caller from a view keeps, what it ends with and the view
it leads to.  A call is kept if the outbox takes its batch as this caller then
sees the queue, and an inner transaction if it commits. -/
inductive Keeps (outbox : Outbox Args) :
    OutboxCaller Args Data ε ρ → Db × Data → List (OutboxEntry Data ε) →
      Except ε ρ → Db × Data → Prop where
  | done {result : Except ε ρ} {view : Db × Data} :
      Keeps outbox (.done result) view [] result view
  | wrote {change : Data → Except ε Data} {next : OutboxCaller Args Data ε ρ}
      {view after : Db × Data} {data : Data}
      {entries : List (OutboxEntry Data ε)} {result : Except ε ρ}
      (hchange : change view.2 = .ok data)
      (hnext : Keeps outbox next (view.1, data) entries result after) :
      Keeps outbox (.write change next) view (.wrote change :: entries) result
        after
  | failed {change : Data → Except ε Data} {next : OutboxCaller Args Data ε ρ}
      {view : Db × Data} {error : ε} (hchange : change view.2 = .error error) :
      Keeps outbox (.write change next) view [] (.error error) view
  | read {next : Db → Data → OutboxCaller Args Data ε ρ}
      {view after : Db × Data} {entries : List (OutboxEntry Data ε)}
      {result : Except ε ρ}
      (hnext : Keeps outbox (next view.1 view.2) view entries result after) :
      Keeps outbox (.read next) view entries result after
  | enqueued {call : OutboxCall Args} {world : OutboxWorld}
      {next : Except Error (List Ulid) → OutboxCaller Args Data ε ρ}
      {view after : Db × Data} {compact : List SubmittedTask}
      {ids : List Ulid} {db : Db} {entries : List (OutboxEntry Data ε)}
      {result : Except ε ρ}
      (htakes : outbox.Takes world view.1 (call.tasks world) compact ids)
      (hdb : Replayed outbox.queue
        ([.enqueued compact ids] : List (OutboxEntry Data ε)) view
        (db, view.2))
      (hnext : Keeps outbox (next (.ok ids)) (db, view.2) entries result
        after) :
      Keeps outbox (.push call world next) view
        (.enqueued compact ids :: entries) result after
  | refused {call : OutboxCall Args} {world : OutboxWorld}
      {next : Except Error (List Ulid) → OutboxCaller Args Data ε ρ}
      {view after : Db × Data} {error : Error}
      {entries : List (OutboxEntry Data ε)} {result : Except ε ρ}
      (hnot : ∀ compact ids,
        ¬ outbox.Takes world view.1 (call.tasks world) compact ids)
      (herror : outbox.Refuses world view.1 (call.tasks world) error)
      (hnext : Keeps outbox (next (.error error)) view entries result after) :
      Keeps outbox (.push call world next) view entries result after
  | committed {body : OutboxCaller Args Data ε ρ}
      {next : Except ε ρ → OutboxCaller Args Data ε ρ}
      {view middle after : Db × Data} {value : ρ}
      {inner entries : List (OutboxEntry Data ε)} {result : Except ε ρ}
      (hbody : Keeps outbox body view inner (.ok value) middle)
      (hnext : Keeps outbox (next (.ok value)) middle entries result after) :
      Keeps outbox (.transaction body next) view (inner ++ entries) result after
  | undone {body : OutboxCaller Args Data ε ρ}
      {next : Except ε ρ → OutboxCaller Args Data ε ρ}
      {view left after : Db × Data} {error : ε}
      {inner entries : List (OutboxEntry Data ε)} {result : Except ε ρ}
      (hbody : Keeps outbox body view inner (.error error) left)
      (hnext : Keeps outbox (next (.error error)) view entries result after) :
      Keeps outbox (.transaction body next) view entries result after

variable {outbox : Outbox Args} {caller : OutboxCaller Args Data ε ρ}
  {view after : Db × Data} {entries : List (OutboxEntry Data ε)}
  {result : Except ε ρ}

/-- The kept entries are all that changed. -/
theorem Keeps.replayed (h : Keeps outbox caller view entries result after) :
    Replayed outbox.queue entries view after := by
  induction h with
  | done => exact .nil _ _
  | @wrote change next view after data entries result hchange _ ih =>
      have hentry : Replayed outbox.queue [OutboxEntry.wrote change] view
          (view.1, data) := by
        refine ⟨by simp [OutboxEntry.rows], rfl, ?_⟩
        simp [OutboxEntry.applied, hchange]
      exact hentry.cons ih
  | failed => exact .nil _ _
  | read _ ih => exact ih
  | enqueued _ hdb _ ih => exact hdb.cons ih
  | refused _ _ _ ih => exact ih
  | committed _ _ ihBody ihNext => exact ihBody.append ihNext
  | undone _ _ _ ihNext => exact ihNext

/-- The run of a caller on a connection that is not blocked, step by step. -/
theorem run_keeps (outbox : Outbox Args) (refused : ε)
    (caller : OutboxCaller Args Data ε ρ) (conn : Connection (Db × Data))
    (hready : conn.blocked = false) :
    ∃ entries result after, Keeps outbox caller conn.view entries result after ∧
      Connection.Ends (caller.run outbox refused) conn result after := by
  induction caller generalizing conn with
  | done result =>
      exact ⟨[], result, conn.view, .done, rfl, rfl, fun _ _ => rfl⟩
  | write change next ih =>
      cases hchange : change conn.view.2 with
      | error error =>
          have hrun : (OutboxCaller.write change next).run outbox refused conn =
              (.error error, conn.failed) := by
            simp [run, hready, hchange]
          refine ⟨[], .error error, conn.view, .failed hchange, ?_⟩
          refine ⟨by rw [hrun], by rw [hrun]; rfl, ?_⟩
          intro value hvalue
          cases hvalue
      | ok data =>
          have hrun : (OutboxCaller.write change next).run outbox refused conn =
              next.run outbox refused
                { conn with view := (conn.view.1, data) } := by
            simp [run, hready, hchange]
          obtain ⟨entries, result, after, hkeeps, hends⟩ :=
            ih { conn with view := (conn.view.1, data) } hready
          exact ⟨_, result, after, .wrote hchange hkeeps, hends.of_step hrun⟩
  | read next ih =>
      have hrun : (OutboxCaller.read next).run outbox refused conn =
          (next conn.view.1 conn.view.2).run outbox refused conn := by
        simp [run, hready]
      obtain ⟨entries, result, after, hkeeps, hends⟩ :=
        ih conn.view.1 conn.view.2 conn hready
      exact ⟨entries, result, after, .read hkeeps, hends.of_step hrun⟩
  | push call world next ih =>
      have hrun : (OutboxCaller.push call world next).run outbox refused conn =
          (next (outbox.pushTasksWithConn world (call.tasks world) conn).1).run
            outbox refused
            (outbox.pushTasksWithConn world (call.tasks world) conn).2 := by
        rw [← call.run_eq outbox world conn]
        rfl
      rcases outbox.pushTasksWithConn_cases world (call.tasks world) hready with
        ⟨compact, ids, db, htakes, hrows, hworkers, hcall⟩ |
        ⟨error, hnot, herror, hcall⟩
      · rw [hcall] at hrun
        obtain ⟨entries, result, after, hkeeps, hends⟩ :=
          ih (.ok ids) { conn with view := (db, conn.view.2) } hready
        have hdb : Replayed outbox.queue
            ([.enqueued compact ids] : List (OutboxEntry Data ε)) conn.view
            (db, conn.view.2) :=
          ⟨by simpa [OutboxEntry.rows] using hrows, hworkers, rfl⟩
        exact ⟨_, result, after, .enqueued htakes hdb hkeeps,
          hends.of_step hrun⟩
      · rw [hcall] at hrun
        obtain ⟨entries, result, after, hkeeps, hends⟩ :=
          ih (.error error) conn hready
        exact ⟨entries, result, after, .refused hnot herror hkeeps,
          hends.of_step hrun⟩
  | transaction body next ihBody ihNext =>
      have hrun : (OutboxCaller.transaction body next).run outbox refused
          conn = (next (conn.transaction refused
              (body.run outbox refused)).1).run outbox refused
            (conn.transaction refused (body.run outbox refused)).2 := rfl
      obtain ⟨inner, outcome, middle, hbody, hstop⟩ := ihBody conn.begun hready
      cases outcome with
      | ok value =>
          rw [hstop.commits hready] at hrun
          obtain ⟨entries, result, after, hkeeps, hends⟩ :=
            ihNext (.ok value) { conn with view := middle } hready
          exact ⟨_, result, after, .committed hbody hkeeps,
            hends.of_step hrun⟩
      | error error =>
          rw [hstop.undone hready] at hrun
          obtain ⟨entries, result, after, hkeeps, hends⟩ :=
            ihNext (.error error) conn hready
          exact ⟨entries, result, after, .undone hbody hkeeps,
            hends.of_step hrun⟩

end OutboxCaller

/-- On every connection that no failed statement blocks, at whatever depth it
stands, a transaction of the caller ends as its steps say.  If it commits, the
connection sees the rows of exactly the kept calls appended in the order of
the calls, each under the id its call returned, and the kept writes of the
caller; if it fails, the connection is as before.  A call is kept if and only
if its payloads encode, its tasks are within the caps and the rules of their
columns, its keys and ids are free in the transaction of the caller and the
server serves its statement: it is then appended whole, and otherwise returns
an error that says why and leaves the transaction usable.  A statement of the
caller's own that fails ends the body around it, and the statements that open
and close transactions do not fail. -/
theorem outbox_commits_with_caller (outbox : Outbox Args) (refused : ε)
    (caller : OutboxCaller Args Data ε ρ) (conn : Connection (Db × Data))
    (hready : conn.blocked = false) :
    ∃ entries result after,
      OutboxCaller.Keeps outbox caller conn.view entries result after ∧
      (∀ value, result = .ok value →
        conn.transaction refused (caller.run outbox refused) =
            (.ok value, { conn with view := after }) ∧
          Replayed outbox.queue entries conn.view after) ∧
      ∀ error, result = .error error →
        conn.transaction refused (caller.run outbox refused) =
          (.error error, conn) := by
  obtain ⟨entries, result, after, hkeeps, hends⟩ :=
    OutboxCaller.run_keeps outbox refused caller conn.begun hready
  refine ⟨entries, result, after, hkeeps, ?_, ?_⟩
  · rintro value rfl
    exact ⟨hends.commits hready refused, hkeeps.replayed⟩
  · rintro error rfl
    exact hends.undone hready refused

/-- A business write, an enqueue, an inner transaction that enqueues and
fails, a batch with a stored key, and the key of the failed transaction once
more. -/
theorem outbox_commits_with_caller_nested :
    let outbox : Outbox (List UInt8) := ⟨"queue", .ok, JsonText.bare⟩
    let task : Option String → PgTask (List UInt8) := fun key =>
      ⟨[], none, 0, 25, 0, [], key⟩
    let world : Nat → OutboxWorld := fun first =>
      ⟨fun i => ⟨.ofNat 128 (first + i)⟩, ⟨(), none, 0, 25, 0, [], none⟩,
        ⟨0, fun _ => false, fun _ => false, fun _ => true, true⟩, none⟩
    let caller : OutboxCaller (List UInt8) Nat Error Nat :=
      .write (fun count => .ok (count + 1)) <|
      .push (.pushTask (task (some "a"))) (world 0) fun _ =>
      .transaction (.push (.pushTask (task (some "b"))) (world 1) fun _ =>
        .done (.error .sinkFailed)) fun _ =>
      .push (.pushTasks [task none, task (some "a")]) (world 2) fun _ =>
      .push (.pushTask (task (some "b"))) (world 4) fun _ =>
      .done (.ok 7)
    let conn : Connection (Db × Nat) := ⟨(.empty, 0), [], false⟩
    let stop := conn.transaction .sinkFailed (caller.run outbox .sinkFailed)
    stop.1 = .ok 7 ∧ stop.2.view.2 = 1 ∧
      stop.2.view.1.jobs.rows.map JobRow.idempotencyKey =
        [some "a", some "b"] ∧
      ∃ entries result after,
        OutboxCaller.Keeps outbox caller conn.view entries result after := by
  intro outbox task world caller conn stop
  refine ⟨by decide +kernel, by decide +kernel, by decide +kernel, ?_⟩
  obtain ⟨entries, result, after, hkeeps, _⟩ :=
    outbox_commits_with_caller outbox .sinkFailed caller conn rfl
  exact ⟨entries, result, after, hkeeps⟩

end ApalisPostgres
