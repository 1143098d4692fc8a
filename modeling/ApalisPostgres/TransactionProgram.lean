/-
Transaction bodies as programs over statements.  A body is a tree: it commits
a value, rolls back with an error, or issues a statement and continues with
its result.  One text of a body is read in two ways: executed alone from
`BEGIN` to `COMMIT`, as below, and interleaved with other sessions.
-/
import Mathlib.Logic.Basic

namespace RowStore

/-- A transaction body over the statements `Stmt`. -/
inductive Program (Stmt : Type) (Result : Stmt → Type) (E α : Type) where
  | commit (value : α)
  | rollback (error : E)
  | statement (label : String) (stmt : Stmt)
      (next : Result stmt → Program Stmt Result E α)

variable {Stmt : Type} {Result : Stmt → Type} {E α β : Type}

def Program.bind :
    Program Stmt Result E α → (α → Program Stmt Result E β) →
      Program Stmt Result E β
  | .commit value, f => f value
  | .rollback error, _ => .rollback error
  | .statement label stmt next, f =>
      .statement label stmt fun result => (next result).bind f

instance : Monad (Program Stmt Result E) where
  pure := Program.commit
  bind := Program.bind

/-- Issue one statement and return its result. -/
def Program.call (label : String) (stmt : Stmt) :
    Program Stmt Result E (Result stmt) :=
  .statement label stmt .commit

@[simp] theorem Program.pure_eq (value : α) :
    (pure value : Program Stmt Result E α) = .commit value := rfl

@[simp] theorem Program.commit_bind (value : α)
    (f : α → Program Stmt Result E β) :
    (Program.commit value >>= f) = f value := rfl

@[simp] theorem Program.rollback_bind (error : E)
    (f : α → Program Stmt Result E β) :
    ((.rollback error : Program Stmt Result E α) >>= f) = .rollback error := rfl

@[simp] theorem Program.statement_bind (label : String) (stmt : Stmt)
    (next : Result stmt → Program Stmt Result E α)
    (f : α → Program Stmt Result E β) :
    (Program.statement label stmt next >>= f) =
      .statement label stmt fun result => next result >>= f := rfl

@[simp] theorem Program.call_bind (label : String) (stmt : Stmt)
    (f : Result stmt → Program Stmt Result E β) :
    ((Program.call label stmt : Program Stmt Result E _) >>= f) =
      .statement label stmt f := rfl

/-- The meaning of the statements: what each returns and changes in the view
of its transaction.  `Env` is everything else it observes, such as the clock
and the rows other sessions hold. -/
structure StatementModel (Stmt : Type) (Result : Stmt → Type)
    (Db Env Effect Fault E : Type) where
  exec : (stmt : Stmt) → Env → Db → Except Fault (Result stmt × List Effect)
  apply : Db → List Effect → Db
  report : String → Fault → E
  apply_nil : ∀ db, apply db [] = db
  apply_append : ∀ db first second,
    apply db (first ++ second) = apply (apply db first) second

variable {Db Env Effect Fault : Type}
variable (M : StatementModel Stmt Result Db Env Effect Fault E)

/-- The same statements, of which any may fail for a reason of its own. -/
def StatementModel.withFaults :
    StatementModel Stmt Result Db (Env × Option Fault) Effect Fault E where
  exec stmt env db :=
    match env.2 with
    | some fault => .error fault
    | none => M.exec stmt env.1 db
  apply := M.apply
  report := M.report
  apply_nil := M.apply_nil
  apply_append := M.apply_append

/-- The same statements, of which some are refused before they run. -/
def StatementModel.guarded (refuses : Stmt → Option Fault) :
    StatementModel Stmt Result Db Env Effect Fault E where
  exec stmt env db :=
    match refuses stmt with
    | some fault => .error fault
    | none => M.exec stmt env db
  apply := M.apply
  report := M.report
  apply_nil := M.apply_nil
  apply_append := M.apply_append

/-- Where a body stopped: its view, what it changed and what it returned. -/
structure BodyEnd (Db Effect E α : Type) where
  view : Db
  effects : List Effect
  outcome : Except E α

/-- Run the statements of a body in its own view; `env n` is what the `n`-th
statement observes. -/
def Program.runBody (env : Nat → Env) :
    Nat → Program Stmt Result E α → Db → List Effect → BodyEnd Db Effect E α
  | _, .commit value, view, effects => ⟨view, effects, .ok value⟩
  | _, .rollback error, view, effects => ⟨view, effects, .error error⟩
  | n, .statement label stmt next, view, effects =>
      match M.exec stmt (env n) view with
      | .error fault => ⟨view, effects, .error (M.report label fault)⟩
      | .ok (result, changes) =>
          (next result).runBody env (n + 1) (M.apply view changes)
            (effects ++ changes)

/-- One statement that ran: what it observed, the view it ran in and what it
changed there. -/
structure Performed (Stmt Db Env Effect : Type) where
  stmt : Stmt
  env : Env
  view : Db
  changes : List Effect

/-- The statements of a body, in the order in which they ran. -/
def Program.performed (env : Nat → Env) :
    Nat → Program Stmt Result E α → Db → List (Performed Stmt Db Env Effect)
  | _, .commit _, _ => []
  | _, .rollback _, _ => []
  | n, .statement _ stmt next, view =>
      match M.exec stmt (env n) view with
      | .error _ => []
      | .ok (result, changes) =>
          ⟨stmt, env n, view, changes⟩ ::
            (next result).performed env (n + 1) (M.apply view changes)

/-- One whole transaction executed alone: an error rolls every change back. -/
def Program.execute (env : Nat → Env) (body : Program Stmt Result E α)
    (db : Db) : BodyEnd Db Effect E α :=
  let stop := body.runBody M env 0 db []
  match stop.outcome with
  | .ok _ => stop
  | .error error => ⟨db, [], .error error⟩

/-- The weakest precondition of a body, over everything its statements may
observe: `post` holds where it commits and `refused` of every error it
reports. -/
def Program.Ensures (post : α → Db → List Effect → Prop) (refused : E → Prop) :
    Program Stmt Result E α → Db → List Effect → Prop
  | .commit value, view, effects => post value view effects
  | .rollback error, _, _ => refused error
  | .statement label stmt next, view, effects =>
      ∀ env, match M.exec stmt env view with
        | .error fault => refused (M.report label fault)
        | .ok (result, changes) =>
            (next result).Ensures post refused (M.apply view changes)
              (effects ++ changes)

variable {M}

theorem Program.Ensures.mono {post post' : α → Db → List Effect → Prop}
    {refused refused' : E → Prop} {body : Program Stmt Result E α}
    {view : Db} {effects : List Effect}
    (h : body.Ensures M post refused view effects)
    (hpost : ∀ value view effects, post value view effects →
      post' value view effects)
    (hrefused : ∀ error, refused error → refused' error) :
    body.Ensures M post' refused' view effects := by
  induction body generalizing view effects with
  | commit value => exact hpost _ _ _ h
  | rollback error => exact hrefused _ h
  | statement label stmt next ih =>
      intro env
      have hstep := h env
      cases hexec : M.exec stmt env view with
      | error fault =>
          rw [hexec] at hstep
          exact hrefused _ hstep
      | ok pair =>
          rw [hexec] at hstep
          exact ih pair.1 hstep

/-- Sequencing: the postcondition of the first part is the precondition of
the rest. -/
theorem Program.ensures_bind {post : β → Db → List Effect → Prop}
    {refused : E → Prop} {body : Program Stmt Result E α}
    {f : α → Program Stmt Result E β} {view : Db} {effects : List Effect}
    (h : body.Ensures M
      (fun value view effects => (f value).Ensures M post refused view effects)
      refused view effects) :
    (body >>= f).Ensures M post refused view effects := by
  induction body generalizing view effects with
  | commit value => exact h
  | rollback error => exact h
  | statement label stmt next ih =>
      intro env
      have hstep := h env
      cases hexec : M.exec stmt env view with
      | error fault =>
          rw [hexec] at hstep
          exact hstep
      | ok pair =>
          rw [hexec] at hstep
          exact ih pair.1 hstep

/-- Every statement a body issues satisfies `Q` in the view it runs in, and
`post` holds where the body commits. -/
def Program.Issues (M : StatementModel Stmt Result Db Env Effect Fault E)
    (Q : Db → Stmt → Prop) (post : α → Db → Prop) :
    Program Stmt Result E α → Db → Prop
  | .commit value, view => post value view
  | .rollback _, _ => True
  | .statement _ stmt next, view =>
      Q view stmt ∧ ∀ env result changes,
        M.exec stmt env view = .ok (result, changes) →
          (next result).Issues M Q post (M.apply view changes)

theorem Program.Issues.mono {Q : Db → Stmt → Prop}
    {post post' : α → Db → Prop} {body : Program Stmt Result E α} {view : Db}
    (h : body.Issues M Q post view)
    (hpost : ∀ value view, post value view → post' value view) :
    body.Issues M Q post' view := by
  induction body generalizing view with
  | commit value => exact hpost _ _ h
  | rollback error => trivial
  | statement label stmt next ih =>
      refine ⟨h.1, ?_⟩
      intro env result changes hexec
      exact ih result (h.2 env result changes hexec)

theorem Program.issues_bind {Q : Db → Stmt → Prop} {post : β → Db → Prop}
    {body : Program Stmt Result E α} {f : α → Program Stmt Result E β}
    {view : Db}
    (h : body.Issues M Q (fun value view => (f value).Issues M Q post view)
      view) :
    (body >>= f).Issues M Q post view := by
  induction body generalizing view with
  | commit value => exact h
  | rollback error => trivial
  | statement label stmt next ih =>
      refine ⟨h.1, ?_⟩
      intro env result changes hexec
      exact ih result (h.2 env result changes hexec)

/-- Every error a body rolls back with satisfies `R`. -/
def Program.Refuses (R : E → Prop) : Program Stmt Result E α → Prop
  | .commit _ => True
  | .rollback error => R error
  | .statement _ _ next => ∀ result, (next result).Refuses R

theorem Program.refuses_bind {R : E → Prop} {body : Program Stmt Result E α}
    {f : α → Program Stmt Result E β} (hbody : body.Refuses R)
    (hf : ∀ value, (f value).Refuses R) : (body >>= f).Refuses R := by
  induction body with
  | commit value => exact hf value
  | rollback error => exact hbody
  | statement label stmt next ih =>
      intro result
      exact ih result (hbody result)

theorem Program.Refuses.mono {R R' : E → Prop}
    {body : Program Stmt Result E α} (h : body.Refuses R)
    (hR : ∀ error, R error → R' error) : body.Refuses R' := by
  induction body with
  | commit value => trivial
  | rollback error => exact hR error h
  | statement label stmt next ih => exact fun result => ih result (h result)

/-- The invariant rule: what every issued statement preserves holds where the
body commits, and the errors are those of the body and of its statements. -/
theorem Program.Issues.ensures {Q : Db → Stmt → Prop} {post : α → Db → Prop}
    {P : Db → List Effect → Prop} {R : E → Prop}
    {body : Program Stmt Result E α} {view : Db}
    (h : body.Issues M Q post view) (hrefuses : body.Refuses R)
    (hstep : ∀ stmt env view effects result changes, Q view stmt →
      P view effects → M.exec stmt env view = .ok (result, changes) →
      P (M.apply view changes) (effects ++ changes))
    (hfault : ∀ label stmt env view effects fault, Q view stmt →
      P view effects → M.exec stmt env view = .error fault →
      R (M.report label fault))
    {effects : List Effect} (hinit : P view effects) :
    body.Ensures M (fun value view effects => post value view ∧ P view effects)
      R view effects := by
  induction body generalizing view effects with
  | commit value => exact ⟨h, hinit⟩
  | rollback error => exact hrefuses
  | statement label stmt next ih =>
      intro env
      cases hexec : M.exec stmt env view with
      | error fault =>
          exact hfault label stmt env view effects fault h.1 hinit hexec
      | ok pair =>
          exact ih pair.1 (h.2 env pair.1 pair.2 hexec) (hrefuses pair.1)
            (hstep stmt env view effects pair.1 pair.2 h.1 hinit hexec)

/-- A body that issues no refused statement runs as without refusals. -/
theorem Program.runBody_guarded {refuses : Stmt → Option Fault}
    {body : Program Stmt Result E α} {view : Db}
    (h : body.Issues M (fun _ stmt => refuses stmt = none) (fun _ _ => True)
      view) (env : Nat → Env) (n : Nat) (effects : List Effect) :
    body.runBody (M.guarded refuses) env n view effects =
      body.runBody M env n view effects := by
  induction body generalizing view n effects with
  | commit value => rfl
  | rollback error => rfl
  | statement label stmt next ih =>
      obtain ⟨haccepted, hnext⟩ := h
      have hexec : (M.guarded refuses).exec stmt (env n) view =
          M.exec stmt (env n) view := by
        simp [StatementModel.guarded, haccepted]
      simp only [Program.runBody, hexec]
      cases hran : M.exec stmt (env n) view with
      | error fault => rfl
      | ok pair =>
          exact ih pair.1 (hnext (env n) pair.1 pair.2 hran) (n + 1)
            (effects ++ pair.2)

theorem Program.execute_guarded {refuses : Stmt → Option Fault}
    {body : Program Stmt Result E α} {db : Db}
    (h : body.Issues M (fun _ stmt => refuses stmt = none) (fun _ _ => True)
      db) (env : Nat → Env) :
    body.execute (M.guarded refuses) env db = body.execute M env db := by
  unfold Program.execute
  rw [Program.runBody_guarded h]

/-- A server that refuses some statements runs a transaction as without
refusals, or fails it and keeps nothing of it. -/
theorem Program.execute_guarded_cases (refuses : Stmt → Option Fault)
    (body : Program Stmt Result E α) (env : Nat → Env) (db : Db) :
    body.execute (M.guarded refuses) env db = body.execute M env db ∨
      ∃ error, body.execute (M.guarded refuses) env db =
        ⟨db, [], .error error⟩ := by
  have hrun : ∀ (n : Nat) (view : Db) (effects : List Effect),
      body.runBody (M.guarded refuses) env n view effects =
          body.runBody M env n view effects ∨
        ∃ error, (body.runBody (M.guarded refuses) env n view
          effects).outcome = .error error := by
    induction body with
    | commit value => exact fun _ _ _ => Or.inl rfl
    | rollback error => exact fun _ _ _ => Or.inl rfl
    | statement label stmt next ih =>
        intro n view effects
        cases hrefuses : refuses stmt with
        | some fault =>
            have hexec : (M.guarded refuses).exec stmt (env n) view =
                .error fault := by
              simp [StatementModel.guarded, hrefuses]
            refine Or.inr ⟨M.report label fault, ?_⟩
            simp only [Program.runBody, hexec]
            rfl
        | none =>
            have hexec : (M.guarded refuses).exec stmt (env n) view =
                M.exec stmt (env n) view := by
              simp [StatementModel.guarded, hrefuses]
            simp only [Program.runBody, hexec]
            cases M.exec stmt (env n) view with
            | error fault => exact Or.inl rfl
            | ok pair => exact ih pair.1 (n + 1) _ _
  rcases hrun 0 db [] with hsame | ⟨error, herror⟩
  · left
    unfold Program.execute
    rw [hsame]
  · right
    exact ⟨error, by simp only [Program.execute, herror]⟩

/-- A performed statement is the first one of the body or one after it. -/
theorem Program.performed_cases {label : String} {stmt : Stmt}
    {next : Result stmt → Program Stmt Result E α} {env : Nat → Env} {n : Nat}
    {view : Db} {item : Performed Stmt Db Env Effect}
    (h : item ∈ (Program.statement label stmt next).performed M env n view) :
    ∃ result changes, M.exec stmt (env n) view = .ok (result, changes) ∧
      (item = ⟨stmt, env n, view, changes⟩ ∨
        item ∈ (next result).performed M env (n + 1) (M.apply view changes)) := by
  cases hexec : M.exec stmt (env n) view with
  | error fault => simp [Program.performed, hexec] at h
  | ok pair =>
      simp only [Program.performed, hexec, List.mem_cons] at h
      exact ⟨pair.1, pair.2, rfl, h⟩

/-- A statement that ran observed one of the environments. -/
theorem Program.performed_env {body : Program Stmt Result E α}
    {env : Nat → Env} {n : Nat} {view : Db}
    {item : Performed Stmt Db Env Effect}
    (h : item ∈ body.performed M env n view) : ∃ k, item.env = env k := by
  induction body generalizing n view with
  | commit value => cases h
  | rollback error => cases h
  | statement label stmt next ih =>
      obtain ⟨result, changes, _, rfl | hlater⟩ := Program.performed_cases h
      · exact ⟨n, rfl⟩
      · exact ih result hlater

/-- A statement that succeeded hands its result on. -/
theorem Program.runBody_statement {label : String} {stmt : Stmt}
    {next : Result stmt → Program Stmt Result E α} {env : Nat → Env} {n : Nat}
    {view : Db} {effects changes : List Effect} {result : Result stmt}
    (h : M.exec stmt (env n) view = .ok (result, changes)) :
    (Program.statement label stmt next).runBody M env n view effects =
      (next result).runBody M env (n + 1) (M.apply view changes)
        (effects ++ changes) := by
  simp [Program.runBody, h]

/-- A body that reaches its commit is the whole transaction. -/
theorem Program.execute_of_runBody {body : Program Stmt Result E α}
    {env : Nat → Env} {db view : Db} {effects : List Effect} {value : α}
    (h : body.runBody M env 0 db [] = ⟨view, effects, .ok value⟩) :
    body.execute M env db = ⟨view, effects, .ok value⟩ := by
  simp [Program.execute, h]

/-- A transaction whose first statement fails leaves nothing. -/
theorem Program.execute_statement_error {label : String} {stmt : Stmt}
    {next : Result stmt → Program Stmt Result E α} {env : Nat → Env} {db : Db}
    {fault : Fault} (h : M.exec stmt (env 0) db = .error fault) :
    (Program.statement label stmt next).execute M env db =
      ⟨db, [], .error (M.report label fault)⟩ := by
  simp [Program.execute, Program.runBody, h]

/-- A body that got past its first statement goes on with its result. -/
theorem Program.runBody_statement_ok {label : String} {stmt : Stmt}
    {next : Result stmt → Program Stmt Result E α} {env : Nat → Env} {n : Nat}
    {view : Db} {effects : List Effect} {value : α}
    (h : ((Program.statement label stmt next).runBody M env n view
      effects).outcome = .ok value) :
    ∃ result changes, M.exec stmt (env n) view = .ok (result, changes) ∧
      (Program.statement label stmt next).runBody M env n view effects =
        (next result).runBody M env (n + 1) (M.apply view changes)
          (effects ++ changes) := by
  cases hexec : M.exec stmt (env n) view with
  | error fault => simp [Program.runBody, hexec] at h
  | ok pair => exact ⟨pair.1, pair.2, rfl, Program.runBody_statement hexec⟩

/-- A transaction that committed is its body. -/
theorem Program.execute_eq_runBody {body : Program Stmt Result E α}
    {env : Nat → Env} {db : Db} {value : α}
    (h : (body.execute M env db).outcome = .ok value) :
    body.execute M env db = body.runBody M env 0 db [] := by
  unfold Program.execute at h ⊢
  rcases hrun : body.runBody M env 0 db [] with ⟨view, effects, outcome⟩
  rw [hrun] at h
  cases outcome with
  | ok value => rfl
  | error error => cases h

/-- A body leaves its view with the changes of the statements it performed. -/
theorem Program.runBody_view (env : Nat → Env) (n : Nat)
    (body : Program Stmt Result E α) (view : Db) (effects : List Effect) :
    (body.runBody M env n view effects).view =
      M.apply view
        ((body.performed M env n view).flatMap Performed.changes) := by
  induction body generalizing view effects n with
  | commit value => simp [Program.runBody, Program.performed, M.apply_nil]
  | rollback error => simp [Program.runBody, Program.performed, M.apply_nil]
  | statement label stmt next ih =>
      cases hexec : M.exec stmt (env n) view with
      | error fault =>
          simp [Program.runBody, Program.performed, hexec, M.apply_nil]
      | ok pair =>
          simp [Program.runBody, Program.performed, hexec, ih, M.apply_append]

/-- A value computed from the result of a body changes nothing else. -/
theorem Program.runBody_map (env : Nat → Env) (f : α → β) (n : Nat)
    (body : Program Stmt Result E α) (view : Db) (effects : List Effect) :
    ((body >>= fun value => pure (f value)).runBody M env n view effects) =
      ⟨(body.runBody M env n view effects).view,
        (body.runBody M env n view effects).effects,
        (body.runBody M env n view effects).outcome.map f⟩ := by
  induction body generalizing view effects n with
  | commit value => rfl
  | rollback error => rfl
  | statement label stmt next ih =>
      rw [Program.statement_bind]
      cases hexec : M.exec stmt (env n) view with
      | error fault => simp [Program.runBody, hexec, Except.map]
      | ok pair =>
          simp only [Program.runBody, hexec]
          exact ih pair.1 (n + 1) (M.apply view pair.2) (effects ++ pair.2)

/-- The whole transaction of a body whose result is handed on. -/
theorem Program.execute_map {env : Nat → Env} {f : α → β}
    {body : Program Stmt Result E α} {db view : Db} {effects : List Effect}
    {value : α} (h : body.runBody M env 0 db [] = ⟨view, effects, .ok value⟩) :
    (body >>= fun value => pure (f value)).execute M env db =
      ⟨view, effects, .ok (f value)⟩ := by
  apply Program.execute_of_runBody
  rw [Program.runBody_map, h]
  rfl

/-- A transaction that handed its result on and committed. -/
theorem Program.execute_map_ok {env : Nat → Env} {f : α → β}
    {body : Program Stmt Result E α} {db : Db} {value : β}
    (h : ((body >>= fun value => pure (f value)).execute M env db).outcome =
      .ok value) :
    ∃ found, (body.runBody M env 0 db []).outcome = .ok found ∧
      f found = value ∧
      ((body >>= fun value => pure (f value)).execute M env db).view =
        (body.runBody M env 0 db []).view := by
  have hbody := Program.execute_eq_runBody h
  rw [hbody, Program.runBody_map] at h ⊢
  cases hfound : (body.runBody M env 0 db []).outcome with
  | error error =>
      rw [hfound] at h
      cases h
  | ok found =>
      rw [hfound] at h
      exact ⟨found, rfl, Except.ok.inj h, rfl⟩

/-- A committed transaction leaves the changes of its statements, and one that
failed leaves nothing. -/
theorem Program.execute_view (env : Nat → Env)
    (body : Program Stmt Result E α) (db : Db) :
    (body.execute M env db).view =
      match (body.execute M env db).outcome with
      | .ok _ => M.apply db
          ((body.performed M env 0 db).flatMap Performed.changes)
      | .error _ => db := by
  have hview := body.runBody_view (M := M) env 0 db []
  unfold Program.execute
  rcases hstop : body.runBody M env 0 db [] with ⟨view, effects, outcome⟩
  rw [hstop] at hview
  cases outcome with
  | ok value => exact hview
  | error error => rfl

/-- The invariant rule for each statement on its own: it was issued as `Q`
says, in a view that still satisfies the invariant. -/
theorem Program.Issues.performed {Q : Db → Stmt → Prop}
    {post : α → Db → Prop} {P : Db → Prop} {body : Program Stmt Result E α}
    {view : Db} (h : body.Issues M Q post view) (hinit : P view)
    (hstep : ∀ stmt env view result changes, Q view stmt → P view →
      M.exec stmt env view = .ok (result, changes) → P (M.apply view changes))
    (env : Nat → Env) (n : Nat) :
    ∀ item ∈ body.performed M env n view,
      Q item.view item.stmt ∧ P item.view ∧
        ∃ result, M.exec item.stmt item.env item.view =
          .ok (result, item.changes) := by
  induction body generalizing view n with
  | commit value => simp [Program.performed]
  | rollback error => simp [Program.performed]
  | statement label stmt next ih =>
      cases hexec : M.exec stmt (env n) view with
      | error fault => simp [Program.performed, hexec]
      | ok pair =>
          intro item hitem
          simp only [Program.performed, hexec, List.mem_cons] at hitem
          rcases hitem with rfl | hlater
          · exact ⟨h.1, hinit, pair.1, hexec⟩
          · exact ih pair.1 (h.2 _ _ _ hexec)
              (hstep _ _ _ _ _ h.1 hinit hexec) (n + 1) item hlater

/-- The invariant rule for the statements that really ran: what each of them
keeps holds where the body stops. -/
theorem Program.runBody_invariant {P : Db → Prop} (env : Nat → Env) (n : Nat)
    (body : Program Stmt Result E α) (view : Db) (effects : List Effect)
    (hview : P view)
    (hstep : ∀ item ∈ body.performed M env n view, P item.view →
      P (M.apply item.view item.changes)) :
    P (body.runBody M env n view effects).view := by
  induction body generalizing view effects n with
  | commit value => exact hview
  | rollback error => exact hview
  | statement label stmt next ih =>
      cases hexec : M.exec stmt (env n) view with
      | error fault => simpa [Program.runBody, hexec] using hview
      | ok pair =>
          simp only [Program.performed, hexec, List.mem_cons] at hstep
          simp only [Program.runBody, hexec]
          refine ih pair.1 (n + 1) _ _ (hstep _ (Or.inl rfl) hview) ?_
          intro item hitem
          exact hstep item (Or.inr hitem)

/-- The same for a whole transaction, whether or not it committed. -/
theorem Program.execute_invariant {P : Db → Prop} (env : Nat → Env)
    (body : Program Stmt Result E α) (db : Db) (hdb : P db)
    (hstep : ∀ item ∈ body.performed M env 0 db, P item.view →
      P (M.apply item.view item.changes)) :
    P (body.execute M env db).view := by
  have hstop := body.runBody_invariant env 0 db [] hdb hstep
  unfold Program.execute
  rcases hrun : body.runBody M env 0 db [] with ⟨view, effects, outcome⟩
  rw [hrun] at hstop
  cases outcome with
  | ok value => exact hstop
  | error error => exact hdb

theorem Program.Ensures.runBody {post : α → Db → List Effect → Prop}
    {refused : E → Prop} {body : Program Stmt Result E α}
    {view : Db} {effects : List Effect}
    (h : body.Ensures M post refused view effects) (env : Nat → Env) (n : Nat) :
    match body.runBody M env n view effects with
    | ⟨view', effects', .ok value⟩ => post value view' effects'
    | ⟨_, _, .error error⟩ => refused error := by
  induction body generalizing view effects n with
  | commit value => exact h
  | rollback error => exact h
  | statement label stmt next ih =>
      have hstep := h (env n)
      cases hexec : M.exec stmt (env n) view with
      | error fault =>
          rw [hexec] at hstep
          simpa [Program.runBody, hexec] using hstep
      | ok pair =>
          rw [hexec] at hstep
          simpa [Program.runBody, hexec] using ih pair.1 hstep (n + 1)

/-- Soundness of the weakest precondition for a transaction executed alone: a
commit satisfies the postcondition, an error leaves the database as it was. -/
theorem Program.Ensures.execute {post : α → Db → List Effect → Prop}
    {refused : E → Prop} {body : Program Stmt Result E α} {db : Db}
    (h : body.Ensures M post refused db []) (env : Nat → Env) :
    match body.execute M env db with
    | ⟨db', effects, .ok value⟩ => post value db' effects
    | ⟨db', effects, .error error⟩ =>
        db' = db ∧ effects = [] ∧ refused error := by
  have hrun := h.runBody env 0
  unfold Program.execute
  rcases hstop : body.runBody M env 0 db [] with ⟨view, effects, outcome⟩
  rw [hstop] at hrun
  cases outcome with
  | error error => exact ⟨rfl, rfl, hrun⟩
  | ok value => exact hrun

/-- A body that reached its commit ends as its postcondition says. -/
theorem Program.Issues.runBody {Q : Db → Stmt → Prop} {post : α → Db → Prop}
    {body : Program Stmt Result E α} {view : Db} {effects : List Effect}
    (h : body.Issues M Q post view) (env : Nat → Env) (n : Nat) {value : α}
    (hok : (body.runBody M env n view effects).outcome = .ok value) :
    post value (body.runBody M env n view effects).view := by
  induction body generalizing view effects n with
  | commit found =>
      cases hok
      exact h
  | rollback error => cases hok
  | statement label stmt next ih =>
      obtain ⟨result, changes, hexec, hnext⟩ :=
        Program.runBody_statement_ok hok
      rw [hnext] at hok ⊢
      exact ih result (h.2 _ _ _ hexec) (n + 1) hok

/-- A transaction that committed ends as its postcondition says. -/
theorem Program.Issues.commits {Q : Db → Stmt → Prop} {post : α → Db → Prop}
    {body : Program Stmt Result E α} {db : Db} (h : body.Issues M Q post db)
    (env : Nat → Env) {value : α}
    (hok : (body.execute M env db).outcome = .ok value) :
    post value (body.execute M env db).view := by
  have hbody := Program.execute_eq_runBody hok
  rw [hbody] at hok ⊢
  exact h.runBody env 0 hok

end RowStore
