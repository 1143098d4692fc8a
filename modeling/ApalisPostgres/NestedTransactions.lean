/-
Transactions within transactions on one connection.  The outermost one runs
from `BEGIN` to its commit or rollback, an inner one from a savepoint to its
release or to the rollback to it.  A statement that fails inside a transaction
blocks the connection until a rollback.
-/
import ApalisPostgres.TransactionProgram

namespace RowStore

/-- A connection: what its statements see, what each open transaction goes
back to, the innermost first, and whether a failed statement blocks it. -/
structure Connection (Db : Type) where
  view : Db
  marks : List Db
  blocked : Bool

variable {Stmt Db Data Env Effect Fault : Type} {Result : Stmt → Type}
  {E ε α : Type}

namespace Connection

/-- `BEGIN`, or a savepoint inside a transaction. -/
def begun (conn : Connection Db) : Connection Db :=
  { conn with marks := conn.view :: conn.marks }

/-- `COMMIT`, or the release of a savepoint. -/
def released (conn : Connection Db) : Connection Db :=
  { conn with marks := conn.marks.tail }

/-- `ROLLBACK`, or the rollback to a savepoint. -/
def rolledBack (conn : Connection Db) : Connection Db :=
  ⟨conn.marks.headD conn.view, conn.marks.tail, false⟩

/-- A statement failed: outside of every transaction nothing is blocked. -/
def failed (conn : Connection Db) : Connection Db :=
  { conn with blocked := !conn.marks.isEmpty }

/-- `conn.transaction(body)`; a blocked connection refuses to begin one and
to commit one. -/
def transaction (refused : ε)
    (body : Connection Db → Except ε α × Connection Db)
    (conn : Connection Db) : Except ε α × Connection Db :=
  if conn.blocked then (.error refused, conn)
  else
    match body conn.begun with
    | (.ok value, after) =>
        if after.blocked then (.error refused, after.rolledBack)
        else (.ok value, after.released)
    | (.error error, after) => (.error error, after.rolledBack)

/-- How code that uses a connection ends there: with this result, every open
transaction still open and, unless it failed, with this view. -/
structure Ends (body : Connection Db → Except ε α × Connection Db)
    (conn : Connection Db) (result : Except ε α) (view : Db) : Prop where
  returned : (body conn).1 = result
  marks : (body conn).2.marks = conn.marks
  after : ∀ value, result = .ok value →
    (body conn).2 = { conn with view := view }

variable {body : Connection Db → Except ε α × Connection Db}
  {conn : Connection Db} {result : Except ε α} {view : Db}

/-- A step that changes the view alone comes before the rest. -/
theorem Ends.of_step {first : Connection Db → Except ε α × Connection Db}
    {middle : Db} (h : Ends body { conn with view := middle } result view)
    (hstep : first conn = body { conn with view := middle }) :
    Ends first conn result view := by
  constructor
  · rw [hstep]
    exact h.returned
  · rw [hstep]
    exact h.marks
  · intro value hvalue
    rw [hstep]
    exact h.after value hvalue

/-- The rule of a transaction that commits. -/
theorem Ends.commits {value : α} (h : Ends body conn.begun (.ok value) view)
    (hready : conn.blocked = false) (refused : ε) :
    transaction refused body conn = (.ok value, { conn with view := view }) := by
  have hbody : body conn.begun =
      (.ok value, { conn.begun with view := view }) :=
    Prod.ext h.returned (h.after value rfl)
  have hbegun : conn.begun.blocked = false := hready
  simp only [transaction, hready, hbody, hbegun, Bool.false_eq_true,
    ↓reduceIte]
  rfl

/-- The rule of a transaction that fails: whatever its body left, the
connection is as before. -/
theorem Ends.undone {error : ε} (h : Ends body conn.begun (.error error) view)
    (hready : conn.blocked = false) (refused : ε) :
    transaction refused body conn = (.error error, conn) := by
  have hback : (body conn.begun).2.rolledBack = conn := by
    have hmarks : (body conn.begun).2.marks = conn.view :: conn.marks := h.marks
    simp only [rolledBack, hmarks, List.headD_cons, List.tail_cons, ← hready]
  have hbody : body conn.begun = (.error error, (body conn.begun).2) :=
    Prod.ext h.returned rfl
  rw [transaction, hbody]
  simp only [hready, hback, Bool.false_eq_true, ↓reduceIte]

end Connection

variable (M : StatementModel Stmt Result Db Env Effect Fault E)

/-- The same statements in a database that also holds other data. -/
def StatementModel.beside (Data : Type) :
    StatementModel Stmt Result (Db × Data) Env Effect Fault E where
  exec stmt env view := M.exec stmt env view.1
  apply view changes := (M.apply view.1 changes, view.2)
  report := M.report
  apply_nil view := by rw [M.apply_nil]
  apply_append view first second := by rw [M.apply_append]

/-- The statements of a body on a connection; `refused` is what a blocked one
answers. -/
def Program.perform (env : Nat → Env) (refused : Fault) :
    Nat → Program Stmt Result E α → Connection Db →
      Except E α × Connection Db
  | _, .commit value, conn => (.ok value, conn)
  | _, .rollback error, conn => (.error error, conn)
  | n, .statement label stmt next, conn =>
      if conn.blocked then (.error (M.report label refused), conn)
      else
        match M.exec stmt (env n) conn.view with
        | .error fault => (.error (M.report label fault), conn.failed)
        | .ok (result, changes) =>
            (next result).perform env refused (n + 1)
              { conn with view := M.apply conn.view changes }

variable {M}

/-- On a connection that is not blocked, a body ends as it does alone. -/
theorem Program.perform_ends (env : Nat → Env) (refused : Fault)
    (body : Program Stmt Result E α) (n : Nat) (conn : Connection Db)
    (hready : conn.blocked = false) (effects : List Effect) :
    Connection.Ends (body.perform M env refused n) conn
      (body.runBody M env n conn.view effects).outcome
      (body.runBody M env n conn.view effects).view := by
  induction body generalizing n conn effects with
  | commit value => exact ⟨rfl, rfl, fun _ _ => rfl⟩
  | rollback error =>
      refine ⟨rfl, rfl, ?_⟩
      intro value hvalue
      cases hvalue
  | statement label stmt next ih =>
      cases hexec : M.exec stmt (env n) conn.view with
      | error fault =>
          have hstop : (Program.statement label stmt next).perform M env
              refused n conn = (.error (M.report label fault), conn.failed) := by
            simp [Program.perform, hready, hexec]
          simp only [Program.runBody, hexec]
          refine ⟨by rw [hstop], by rw [hstop]; rfl, ?_⟩
          intro value hvalue
          cases hvalue
      | ok pair =>
          have hnext : (Program.statement label stmt next).perform M env
              refused n conn = (next pair.1).perform M env refused (n + 1)
                { conn with view := M.apply conn.view pair.2 } := by
            simp [Program.perform, hready, hexec]
          have hends := ih pair.1 (n + 1)
            { conn with view := M.apply conn.view pair.2 } hready
            (effects ++ pair.2)
          simp only [Program.runBody, hexec]
          exact hends.of_step hnext

/-- The other data takes no part. -/
theorem Program.runBody_beside (env : Nat → Env) (n : Nat)
    (body : Program Stmt Result E α) (view : Db × Data)
    (effects : List Effect) :
    body.runBody (M.beside Data) env n view effects =
      ⟨((body.runBody M env n view.1 effects).view, view.2),
        (body.runBody M env n view.1 effects).effects,
        (body.runBody M env n view.1 effects).outcome⟩ := by
  induction body generalizing n view effects with
  | commit value => rfl
  | rollback error => rfl
  | statement label stmt next ih =>
      have hsame : (M.beside Data).exec stmt (env n) view =
          M.exec stmt (env n) view.1 := rfl
      cases hexec : M.exec stmt (env n) view.1 with
      | error fault =>
          simp only [Program.runBody, hsame, hexec]
          rfl
      | ok pair =>
          simp only [Program.runBody, hsame, hexec]
          exact ih pair.1 (n + 1) _ _

/-- Statements that no fault meets run as they would without faults. -/
theorem Program.runBody_withFaults_none (env : Nat → Env) (n : Nat)
    (body : Program Stmt Result E α) (view : Db) (effects : List Effect) :
    body.runBody M.withFaults (fun k => (env k, none)) n view effects =
      body.runBody M env n view effects := by
  induction body generalizing n view effects with
  | commit value => rfl
  | rollback error => rfl
  | statement label stmt next ih =>
      have hsame : M.withFaults.exec stmt (env n, none) view =
          M.exec stmt (env n) view := rfl
      cases hexec : M.exec stmt (env n) view with
      | error fault =>
          simp only [Program.runBody, hsame, hexec]
          rfl
      | ok pair =>
          simp only [Program.runBody, hsame, hexec]
          exact ih pair.1 (n + 1) _ _

theorem Program.execute_withFaults_none (env : Nat → Env)
    (body : Program Stmt Result E α) (db : Db) :
    body.execute M.withFaults (fun k => (env k, none)) db =
      body.execute M env db := by
  unfold Program.execute
  rw [Program.runBody_withFaults_none]

/-- A body in a transaction of its own has the effect of the transaction
executed alone, at whatever depth it begins, and leaves the transactions
around it usable. -/
theorem Program.transaction_perform (env : Nat → Env) (begins : E)
    (refused : Fault) (body : Program Stmt Result E α)
    (conn : Connection (Db × Data)) (hready : conn.blocked = false) :
    Connection.transaction begins
        (body.perform (M.beside Data) env refused 0) conn =
      ((body.execute M env conn.view.1).outcome,
        { conn with
          view := ((body.execute M env conn.view.1).view, conn.view.2) }) := by
  have hends := body.perform_ends (M := M.beside Data) env refused 0
    conn.begun hready []
  rw [Program.runBody_beside] at hends
  have hview : conn.begun.view = conn.view := rfl
  rw [hview] at hends
  unfold Program.execute
  rcases hstop : body.runBody M env 0 conn.view.1 [] with
    ⟨view, effects, outcome⟩
  rw [hstop] at hends
  cases outcome with
  | ok value => exact hends.commits hready begins
  | error error => exact hends.undone hready begins

end RowStore
