/-
Several sessions over one database.  Each session runs the body of its
operation statement by statement: a statement sees what is committed and what
its own transaction wrote, keeps its locks until the transaction ends, and
waits while another session holds a lock that conflicts with them.
-/
import ApalisPostgres.TransactionProgram
import ApalisPostgres.EventMachine
import Mathlib.Data.List.Infix

namespace RowStore

variable {Stmt : Type} {Result : Stmt → Type}
variable {Db Env Effect Fault E α Op Resource Mode : Type}

/-- One statement a session ran: the committed database it ran over, the view
of its transaction, and what it returned and changed there. -/
structure Ran (M : StatementModel Stmt Result Db Env Effect Fault E) where
  stmt : Stmt
  env : Env
  base : Db
  view : Db
  result : Result stmt
  changes : List Effect
  executed : M.exec stmt env view = .ok (result, changes)

/-- How far a session is.  An aborted session was ended from outside, by a
lost connection or a deadlock. -/
inductive Stage (Stmt : Type) (Result : Stmt → Type) (E α : Type) where
  | running (rest : Program Stmt Result E α)
  | committed (value : α)
  | refused (error : E)
  | aborted (error : E)

def Stage.isRunning : Stage Stmt Result E α → Bool
  | .running _ => true
  | _ => false

def Stage.isCommitted : Stage Stmt Result E α → Bool
  | .committed _ => true
  | _ => false

/-- The body has reached its commit. -/
def Stage.isCommitting : Stage Stmt Result E α → Bool
  | .running (.commit _) => true
  | _ => false

theorem Stage.isCommitting_iff {stage : Stage Stmt Result E α} :
    stage.isCommitting = true ↔ ∃ value, stage = .running (.commit value) := by
  constructor
  · intro h
    match stage with
    | .running (.commit value) => exact ⟨value, rfl⟩
  · rintro ⟨value, rfl⟩
    rfl

/-- One transaction in progress or over, with the statements it ran. -/
structure Session (M : StatementModel Stmt Result Db Env Effect Fault E)
    (Op α : Type) where
  op : Op
  trace : List (Ran M)
  stage : Stage Stmt Result E α

variable {M : StatementModel Stmt Result Db Env Effect Fault E}

/-- The rows a list of statements changed, in order. -/
def written (trace : List (Ran M)) : List Effect :=
  trace.flatMap Ran.changes

/-- What a transaction wrote and nobody else sees yet. -/
def Session.pending (session : Session M Op α) : List Effect :=
  written session.trace

/-- A session ran the item directly after the statements `before`. -/
def Session.Issued (session : Session M Op α) (before : List (Ran M))
    (item : Ran M) : Prop :=
  before ++ [item] <+: session.trace

/-- The locks each executed statement takes, and which of them exclude each
other. -/
structure LockModel (M : StatementModel Stmt Result Db Env Effect Fault E)
    (Resource Mode : Type) where
  acquires : Ran M → List (Resource × Mode)
  conflicts : Mode → Mode → Bool
  conflicts_comm : ∀ first second,
    conflicts first second = conflicts second first

variable (L : LockModel M Resource Mode)

/-- The locks a list of statements took. -/
def LockModel.held (trace : List (Ran M)) : List (Resource × Mode) :=
  trace.flatMap L.acquires

/-- A session keeps its locks while it runs. -/
def Session.locks (session : Session M Op α) : List (Resource × Mode) :=
  if session.stage.isRunning then L.held session.trace else []

theorem Session.locks_of_running {session : Session M Op α}
    (h : session.stage.isRunning = true) :
    session.locks L = L.held session.trace := by
  rw [Session.locks, if_pos h]

theorem Session.locks_of_over {session : Session M Op α}
    (h : session.stage.isRunning = false) : session.locks L = [] := by
  rw [Session.locks, if_neg (by rw [h]; exact Bool.false_ne_true)]

variable [DecidableEq Resource]

/-- Two locks on one resource in modes that exclude each other. -/
def LockModel.clash (first second : Resource × Mode) : Bool :=
  decide (first.1 = second.1) && L.conflicts first.2 second.2

/-- The committed database and every session that was begun. -/
structure Server (M : StatementModel Stmt Result Db Env Effect Fault E)
    (Op α : Type) where
  db : Db
  sessions : List (Session M Op α)

inductive ServerEvent (Op Env E : Type) where
  | begin (op : Op)
  | statement (index : Nat) (env : Env)
  | finish (index : Nat)
  | abort (index : Nat) (error : E)

/-- No other session holds a lock that clashes with the wanted ones. -/
def Server.grants (server : Server M Op α) (index : Nat)
    (wanted : List (Resource × Mode)) : Bool :=
  server.sessions.zipIdx.all fun entry =>
    entry.2 = index ||
      (entry.1.locks L).all fun lock =>
        wanted.all fun want => !L.clash lock want

def Server.replace (server : Server M Op α) (index : Nat)
    (session : Session M Op α) : Server M Op α :=
  { server with sessions := server.sessions.set index session }

def Session.start (body : Op → Program Stmt Result E α) (op : Op) :
    Session M Op α :=
  ⟨op, [], .running (body op)⟩

variable (body : Op → Program Stmt Result E α)

/-- One event: a session begins, runs its next statement, reaches its end or
is ended from outside.  A statement that would have to wait does not run. -/
def Server.step (server : Server M Op α) :
    ServerEvent Op Env E → Option (Server M Op α)
  | .begin op =>
      some { server with sessions := server.sessions ++ [.start body op] }
  | .statement index env =>
      match server.sessions[index]? with
      | none => none
      | some session =>
          match session.stage with
          | .running (.statement label stmt next) =>
              match hexec : M.exec stmt env
                  (M.apply server.db session.pending) with
              | .error fault =>
                  some (server.replace index
                    { session with stage := .refused (M.report label fault) })
              | .ok (result, changes) =>
                  let item : Ran M :=
                    ⟨stmt, env, server.db, M.apply server.db session.pending,
                      result, changes, hexec⟩
                  if server.grants L index (L.acquires item) then
                    some (server.replace index
                      { session with
                        trace := session.trace ++ [item]
                        stage := .running (next result) })
                  else none
          | _ => none
  | .finish index =>
      match server.sessions[index]? with
      | none => none
      | some session =>
          match session.stage with
          | .running (.commit value) =>
              some { server.replace index
                  { session with stage := .committed value } with
                db := M.apply server.db session.pending }
          | .running (.rollback error) =>
              some (server.replace index
                { session with stage := .refused error })
          | _ => none
  | .abort index error =>
      match server.sessions[index]? with
      | none => none
      | some session =>
          if session.stage.isRunning then
            some (server.replace index { session with stage := .aborted error })
          else none

/-- Every session begins on a server that was given its first database. -/
def Server.machine (initial : Db) :
    Machine (Server M Op α) (ServerEvent Op Env E) where
  Initial server := server = ⟨initial, []⟩
  step := Server.step L body

variable {L body}

/-- What one session does by itself over the committed database. -/
inductive Session.Advances (db : Db) (session : Session M Op α) :
    Session M Op α → Prop where
  | ran {label : String} (item : Ran M)
      {next : Result item.stmt → Program Stmt Result E α}
      (hstage : session.stage = .running (.statement label item.stmt next))
      (hbase : item.base = db)
      (hview : item.view = M.apply db session.pending) :
      Session.Advances db session
        { session with
          trace := session.trace ++ [item]
          stage := .running (next item.result) }
  | faulted {label : String} {stmt : Stmt} {env : Env} {fault : Fault}
      {next : Result stmt → Program Stmt Result E α}
      (hstage : session.stage = .running (.statement label stmt next))
      (hexec : M.exec stmt env (M.apply db session.pending) = .error fault) :
      Session.Advances db session
        { session with stage := .refused (M.report label fault) }
  | committed {value : α} (hstage : session.stage = .running (.commit value)) :
      Session.Advances db session { session with stage := .committed value }
  | refused {error : E} (hstage : session.stage = .running (.rollback error)) :
      Session.Advances db session { session with stage := .refused error }
  | aborted (hrunning : session.stage.isRunning = true) (error : E) :
      Session.Advances db session { session with stage := .aborted error }

/-- The wanted locks clash with no lock of another session. -/
def Server.Granted (L : LockModel M Resource Mode) (server : Server M Op α)
    (index : Nat) (wanted : List (Resource × Mode)) : Prop :=
  ∀ other session, other ≠ index → server.sessions[other]? = some session →
    ∀ lock ∈ session.locks L, ∀ want ∈ wanted, L.clash lock want = false

theorem Server.granted_of_grants {server : Server M Op α} {index : Nat}
    {wanted : List (Resource × Mode)}
    (h : server.grants L index wanted = true) :
    server.Granted L index wanted := by
  intro other session hother hsession lock hlock want hwant
  have hentry : (session, other) ∈ server.sessions.zipIdx :=
    List.mem_zipIdx_iff_getElem?.mpr hsession
  have hall := List.all_eq_true.mp h (session, other) hentry
  simp only [hother, decide_false, Bool.false_or, List.all_eq_true,
    Bool.not_eq_true'] at hall
  exact hall lock hlock want hwant

/-- What one event does: a session begins, or one session advances.  Only a
commit changes the database. -/
inductive Server.Moves (L : LockModel M Resource Mode)
    (body : Op → Program Stmt Result E α) (server : Server M Op α) :
    ServerEvent Op Env E → Server M Op α → Prop where
  | begins (op : Op) :
      Server.Moves L body server (.begin op)
        { server with sessions := server.sessions ++ [.start body op] }
  | ran {index : Nat} {session : Session M Op α} {label : String}
      (item : Ran M) {next : Result item.stmt → Program Stmt Result E α}
      (hsession : server.sessions[index]? = some session)
      (hstage : session.stage = .running (.statement label item.stmt next))
      (hbase : item.base = server.db)
      (hview : item.view = M.apply server.db session.pending)
      (hgranted : server.Granted L index (L.acquires item)) :
      Server.Moves L body server (.statement index item.env)
        (server.replace index
          { session with
            trace := session.trace ++ [item]
            stage := .running (next item.result) })
  | committed {index : Nat} {session : Session M Op α} {value : α}
      (hsession : server.sessions[index]? = some session)
      (hstage : session.stage = .running (.commit value)) :
      Server.Moves L body server (.finish index)
        { server.replace index { session with stage := .committed value } with
          db := M.apply server.db session.pending }
  | ended {index : Nat} {session : Session M Op α}
      {event : ServerEvent Op Env E} {stage : Stage Stmt Result E α}
      (hsession : server.sessions[index]? = some session)
      (hover : stage.isRunning = false)
      (huncommitted : stage.isCommitted = false)
      (hadvances : session.Advances server.db { session with stage := stage }) :
      Server.Moves L body server event
        (server.replace index { session with stage := stage })

theorem Server.step_cases {server after : Server M Op α}
    {event : ServerEvent Op Env E}
    (h : server.step L body event = some after) :
    server.Moves L body event after := by
  cases event with
  | begin op =>
      obtain rfl := Option.some.inj h
      exact .begins op
  | statement index env =>
      simp only [Server.step] at h
      split at h
      · cases h
      · rename_i session hsession
        split at h
        · rename_i label stmt next hstage
          split at h
          · rename_i fault hexec
            obtain rfl := Option.some.inj h
            exact .ended hsession rfl rfl (.faulted hstage hexec)
          · rename_i result changes hexec
            split at h
            · rename_i hgrants
              obtain rfl := Option.some.inj h
              let item : Ran M :=
                ⟨stmt, env, server.db, M.apply server.db session.pending,
                  result, changes, hexec⟩
              exact .ran item hsession hstage rfl rfl
                (Server.granted_of_grants hgrants)
            · cases h
        · cases h
  | finish index =>
      simp only [Server.step] at h
      split at h
      · cases h
      · rename_i session hsession
        split at h
        · rename_i value hstage
          obtain rfl := Option.some.inj h
          exact .committed hsession hstage
        · rename_i error hstage
          obtain rfl := Option.some.inj h
          exact .ended hsession rfl rfl (.refused hstage)
        · cases h
  | abort index error =>
      simp only [Server.step] at h
      split at h
      · cases h
      · rename_i session hsession
        split at h
        · rename_i hrunning
          obtain rfl := Option.some.inj h
          exact .ended hsession rfl rfl (.aborted hrunning error)
        · cases h

section Moves

variable {server after : Server M Op α} {event : ServerEvent Op Env E}

/-- Every session of the next state was there before, has just begun, or
advanced. -/
theorem Server.Moves.sessions (h : server.Moves L body event after)
    {index : Nat} {session : Session M Op α}
    (hsession : after.sessions[index]? = some session) :
    server.sessions[index]? = some session ∨
      (server.sessions[index]? = none ∧
        ∃ op, session = Session.start body op) ∨
      ∃ before, server.sessions[index]? = some before ∧
        before.Advances server.db session := by
  have hset : ∀ {turn : Nat} {old new : Session M Op α},
      server.sessions[turn]? = some old → old.Advances server.db new →
      (server.sessions.set turn new)[index]? = some session →
      server.sessions[index]? = some session ∨
        ∃ before, server.sessions[index]? = some before ∧
          before.Advances server.db session := by
    intro turn old new hold hadvances hfound
    rw [List.getElem?_set] at hfound
    split at hfound
    · rename_i heq
      split at hfound
      · obtain rfl := Option.some.inj hfound
        exact Or.inr ⟨old, heq ▸ hold, hadvances⟩
      · cases hfound
    · exact Or.inl hfound
  cases h with
  | begins op =>
      rw [List.getElem?_append] at hsession
      split at hsession
      · exact Or.inl hsession
      · rename_i hlength
        rw [List.getElem?_singleton] at hsession
        split at hsession
        · obtain rfl := Option.some.inj hsession
          exact Or.inr (Or.inl ⟨List.getElem?_eq_none (by omega), op, rfl⟩)
        · cases hsession
  | ran item hold hstage hbase hview _ =>
      exact (hset hold (.ran item hstage hbase hview) hsession).imp_right
        Or.inr
  | committed hold hstage =>
      exact (hset hold (.committed hstage) hsession).imp_right Or.inr
  | ended hold _ _ hadvances =>
      exact (hset hold hadvances hsession).imp_right Or.inr

/-- The database is unchanged, or one session committed what it wrote. -/
theorem Server.Moves.db_cases (h : server.Moves L body event after) :
    after.db = server.db ∨
      ∃ index session value, event = .finish index ∧
        server.sessions[index]? = some session ∧
        session.stage = .running (.commit value) ∧
        after.db = M.apply server.db session.pending ∧
        after.sessions[index]? =
          some { session with stage := .committed value } ∧
        ∀ other ≠ index, after.sessions[other]? = server.sessions[other]? := by
  cases h with
  | begins op => exact Or.inl rfl
  | ran item _ _ _ _ _ => exact Or.inl rfl
  | ended _ _ _ _ => exact Or.inl rfl
  | @committed index session value hsession hstage =>
      refine Or.inr ⟨index, session, value, rfl, hsession, hstage, rfl, ?_, ?_⟩
      · obtain ⟨hindex, _⟩ := List.getElem?_eq_some_iff.mp hsession
        simp [Server.replace, hindex]
      · intro other hother
        exact List.getElem?_set_ne (Ne.symm hother)

/-- While a session runs a statement, nobody commits. -/
theorem Server.Moves.db_eq_of_ran (h : server.Moves L body event after)
    {index : Nat} {old session : Session M Op α}
    (hold : server.sessions[index]? = some old)
    (hsession : after.sessions[index]? = some session)
    (hran : old.trace.length < session.trace.length) :
    after.db = server.db := by
  rcases h.db_cases with hsame |
    ⟨turn, writer, value, _, hwriter, _, _, hturn, hothers⟩
  · exact hsame
  · by_cases heq : index = turn
    · subst heq
      rw [hold] at hwriter
      rw [hsession] at hturn
      obtain rfl := Option.some.inj hwriter
      obtain rfl := Option.some.inj hturn
      exact absurd hran (Nat.lt_irrefl _)
    · rw [hothers index heq, hold] at hsession
      obtain rfl := Option.some.inj hsession
      exact absurd hran (Nat.lt_irrefl _)

/-- A lock is an old one, or it was granted to the only session that moved. -/
theorem Server.Moves.lock_cases (h : server.Moves L body event after)
    {index : Nat} {session : Session M Op α}
    (hsession : after.sessions[index]? = some session)
    {lock : Resource × Mode} (hlock : lock ∈ session.locks L) :
    (∃ before, server.sessions[index]? = some before ∧
        lock ∈ before.locks L) ∨
      ((∃ wanted, lock ∈ wanted ∧ server.Granted L index wanted) ∧
        ∀ other ≠ index, after.sessions[other]? = server.sessions[other]?) := by
  cases h with
  | begins op =>
      rw [List.getElem?_append] at hsession
      split at hsession
      · exact Or.inl ⟨session, hsession, hlock⟩
      · rw [List.getElem?_singleton] at hsession
        split at hsession
        · obtain rfl := Option.some.inj hsession
          rw [Session.locks_of_running L rfl] at hlock
          cases hlock
        · cases hsession
  | @ran turn old label item next hold hstage _ _ hgranted =>
      have hrunning : old.stage.isRunning = true := by rw [hstage]; rfl
      rw [Server.replace, List.getElem?_set] at hsession
      split at hsession
      · rename_i heq
        subst heq
        split at hsession
        · obtain rfl := Option.some.inj hsession
          have hcases : lock ∈ old.locks L ∨ lock ∈ L.acquires item := by
            rw [Session.locks_of_running L rfl] at hlock
            rw [Session.locks_of_running L hrunning]
            simpa [LockModel.held] using hlock
          rcases hcases with holdlock | hnew
          · exact Or.inl ⟨old, hold, holdlock⟩
          · refine Or.inr ⟨⟨_, hnew, hgranted⟩, ?_⟩
            intro other hother
            exact List.getElem?_set_ne (Ne.symm hother)
        · cases hsession
      · exact Or.inl ⟨session, hsession, hlock⟩
  | committed hold _ =>
      rw [Server.replace, List.getElem?_set] at hsession
      split at hsession
      · split at hsession
        · obtain rfl := Option.some.inj hsession
          rw [Session.locks_of_over L rfl] at hlock
          cases hlock
        · cases hsession
      · exact Or.inl ⟨session, hsession, hlock⟩
  | ended hold hover _ _ =>
      rw [Server.replace, List.getElem?_set] at hsession
      split at hsession
      · split at hsession
        · obtain rfl := Option.some.inj hsession
          rw [Session.locks_of_over L hover] at hlock
          cases hlock
        · cases hsession
      · exact Or.inl ⟨session, hsession, hlock⟩

end Moves

theorem LockModel.clash_comm (first second : Resource × Mode) :
    L.clash first second = L.clash second first := by
  unfold LockModel.clash
  rw [L.conflicts_comm first.2 second.2]
  by_cases heq : first.1 = second.1
  · simp [heq]
  · simp [heq, Ne.symm heq]

omit [DecidableEq Resource] in
/-- A session of the server with one session replaced. -/
theorem Server.replace_cases {server : Server M Op α} {turn index : Nat}
    {new session : Session M Op α}
    (h : (server.replace turn new).sessions[index]? = some session) :
    (index ≠ turn ∧ server.sessions[index]? = some session) ∨
      (index = turn ∧ session = new) := by
  rw [Server.replace, List.getElem?_set] at h
  split at h
  · rename_i heq
    split at h
    · exact Or.inr ⟨heq.symm, (Option.some.inj h).symm⟩
    · cases h
  · rename_i hne
    exact Or.inl ⟨Ne.symm hne, h⟩

omit [DecidableEq Resource] in
/-- A session of the server on which one more has begun. -/
theorem Server.begin_cases {server : Server M Op α} {index : Nat}
    {new session : Session M Op α}
    (h : (server.sessions ++ [new])[index]? = some session) :
    server.sessions[index]? = some session ∨ session = new := by
  rw [List.getElem?_append] at h
  split at h
  · exact Or.inl h
  · rw [List.getElem?_singleton] at h
    split at h
    · exact Or.inr (Option.some.inj h).symm
    · cases h

/-- No two sessions hold clashing locks. -/
def Server.Exclusive (L : LockModel M Resource Mode) (server : Server M Op α) :
    Prop :=
  ∀ (index other : Nat) (first second : Session M Op α), index ≠ other →
    server.sessions[index]? = some first →
    server.sessions[other]? = some second →
    ∀ lock ∈ first.locks L, ∀ held ∈ second.locks L, L.clash lock held = false

theorem Server.Exclusive.step {server after : Server M Op α}
    {event : ServerEvent Op Env E} (hserver : server.Exclusive L)
    (h : server.Moves L body event after) : after.Exclusive L := by
  intro index other first second hne hfirst hsecond lock hlock held hheld
  rcases h.lock_cases hfirst hlock with
    ⟨old, hold, holdlock⟩ | ⟨⟨wanted, hwanted, hgranted⟩, hsame⟩
  · rcases h.lock_cases hsecond hheld with
      ⟨older, holder, holdheld⟩ | ⟨⟨wanted, hwanted, hgranted⟩, hsame⟩
    · exact hserver index other old older hne hold holder lock holdlock held
        holdheld
    · rw [hsame index hne] at hfirst
      exact hgranted index first hne hfirst lock hlock held hwanted
  · rw [hsame other (Ne.symm hne)] at hsecond
    rw [L.clash_comm]
    exact hgranted other second (Ne.symm hne) hsecond held hheld lock hwanted

section Reachability

variable {initial : Db}

theorem Server.reachable_exclusive {server : Server M Op α}
    (h : (Server.machine L body initial).Reachable server) :
    server.Exclusive L := by
  apply h.invariant (Server.Exclusive L)
  · rintro start rfl
    intro index other first second _ hfirst
    simp at hfirst
  · intro state after event hstate hevent
    exact hstate.step (Server.step_cases hevent)

/-- What every session keeps by itself holds of every session of a run. -/
theorem Server.reachable_sessions (P : Session M Op α → Prop)
    (hstart : ∀ op, P (.start body op))
    (hadvances : ∀ {db : Db} {session next : Session M Op α},
      session.Advances db next → P session → P next)
    {server : Server M Op α}
    (h : (Server.machine L body initial).Reachable server) {index : Nat}
    {session : Session M Op α}
    (hsession : server.sessions[index]? = some session) : P session := by
  have hall : ∀ (index : Nat) (session : Session M Op α),
      server.sessions[index]? = some session → P session := by
    apply h.invariant fun server : Server M Op α => ∀ (index : Nat) session,
      server.sessions[index]? = some session → P session
    · rintro start rfl index session hfound
      simp at hfound
    · intro state after event hstate hevent index session hfound
      rcases (Server.step_cases hevent).sessions hfound with
        hold | ⟨_, op, rfl⟩ | ⟨before, hbefore, hadvance⟩
      · exact hstate index session hold
      · exact hstart op
      · exact hadvances hadvance (hstate index before hbefore)
  exact hall index session hsession

/-- The view a statement leaves is what its transaction sees from then on. -/
theorem Session.apply_ran {db : Db} {session : Session M Op α} {item : Ran M}
    (hview : item.view = M.apply db session.pending) :
    M.apply db (written (session.trace ++ [item])) =
      M.apply item.view item.changes := by
  have hwritten : written (session.trace ++ [item]) =
      session.pending ++ item.changes := by
    simp [Session.pending, written]
  rw [hwritten, M.apply_append, hview]

theorem Session.Advances.running {db : Db} {session next : Session M Op α}
    (h : session.Advances db next) : session.stage.isRunning = true := by
  cases h with
  | ran item hstage _ _ => rw [hstage]; rfl
  | faulted hstage _ => rw [hstage]; rfl
  | committed hstage => rw [hstage]; rfl
  | refused hstage => rw [hstage]; rfl
  | aborted hrunning _ => exact hrunning

theorem Session.Advances.op_eq {db : Db} {session next : Session M Op α}
    (h : session.Advances db next) : next.op = session.op := by
  cases h <;> rfl

theorem Session.Advances.trace_prefix {db : Db}
    {session next : Session M Op α} (h : session.Advances db next) :
    session.trace <+: next.trace := by
  cases h with
  | ran item _ _ _ => exact List.prefix_append _ _
  | faulted _ _ | committed _ | refused _ | aborted _ _ =>
      exact List.prefix_rfl

/-- A session that still runs after its advance ran a statement. -/
theorem Session.Advances.ran_of_running {db : Db}
    {session next : Session M Op α} (h : session.Advances db next)
    (hrunning : next.stage.isRunning = true) :
    ∃ item : Ran M, item.base = db ∧
      item.view = M.apply db session.pending ∧
      next.trace = session.trace ++ [item] := by
  cases h with
  | ran item _ hbase hview => exact ⟨item, hbase, hview, rfl⟩
  | faulted _ _ | committed _ | refused _ | aborted _ _ => cases hrunning

omit [DecidableEq Resource] in
theorem Session.Issued.subset_held {session : Session M Op α}
    {before : List (Ran M)} {item : Ran M} (h : session.Issued before item)
    {lock : Resource × Mode} (hlock : lock ∈ L.held (before ++ [item])) :
    lock ∈ L.held session.trace := by
  obtain ⟨ran, hran, hacquired⟩ := List.mem_flatMap.mp hlock
  exact List.mem_flatMap.mpr ⟨ran, h.subset hran, hacquired⟩

/-- A guarded property of the database: whoever commits its end holds a lock
that clashes with every guard. -/
def Guarded (L : LockModel M Resource Mode)
    (body : Op → Program Stmt Result E α) (initial : Db) (P : Db → Prop)
    (guard : Resource × Mode → Prop) : Prop :=
  ∀ (server : Server M Op α) (index : Nat) (session : Session M Op α)
    (value : α), (Server.machine L body initial).Reachable server →
    server.sessions[index]? = some session →
    session.stage = .running (.commit value) → P server.db →
    ¬ P (M.apply server.db session.pending) →
    ∃ lock ∈ L.held session.trace, ∀ guarded, guard guarded →
      L.clash lock guarded = true

/-- What a session read under a guard stays true until the session ends. -/
theorem Guarded.stable {P : Db → Prop} {guard : Resource × Mode → Prop}
    (hguarded : Guarded L body initial P guard) {server : Server M Op α}
    (h : (Server.machine L body initial).Reachable server) {index : Nat}
    {session : Session M Op α}
    (hsession : server.sessions[index]? = some session)
    (hrunning : session.stage.isRunning = true) {before : List (Ran M)}
    {item : Ran M} (hissued : session.Issued before item)
    {lock : Resource × Mode} (hlock : lock ∈ L.held (before ++ [item]))
    (hguard : guard lock) (hbase : P item.base) : P server.db := by
  let inv : Server M Op α → Prop := fun server =>
    ∀ (index : Nat) (session : Session M Op α),
      server.sessions[index]? = some session →
      session.stage.isRunning = true →
      ∀ (before : List (Ran M)) (item : Ran M), session.Issued before item →
        ∀ lock ∈ L.held (before ++ [item]), guard lock → P item.base →
          P server.db
  have hinv : inv server := by
    apply h.invariant_of_reachable inv
    · rintro start rfl index session hfound
      simp at hfound
    · intro state after event hreachable hstate hevent index session hfound
        hrun before item hissued lock hlock hguard hbase
      have hmoves := Server.step_cases hevent
      -- a statement of this session reads the database as it is committed
      have hnow : P state.db := by
        rcases hmoves.sessions hfound with
          hold | ⟨_, op, rfl⟩ | ⟨old, hold, hadvance⟩
        · exact hstate index session hold hrun before item hissued lock hlock
            hguard hbase
        · have hnil := hissued.length_le
          simp [Session.start] at hnil
        · obtain ⟨new, hnewBase, _, htrace⟩ :=
            hadvance.ran_of_running hrun
          rw [Session.Issued, htrace, List.prefix_concat_iff] at hissued
          rcases hissued with hlast | hearlier
          · obtain ⟨_, hitem⟩ := List.append_inj' hlast rfl
            obtain rfl := List.singleton_inj.mp hitem
            exact hnewBase ▸ hbase
          · exact hstate index old hold hadvance.running before item hearlier
              lock hlock hguard hbase
      rcases hmoves.db_cases with hsame |
        ⟨turn, writer, value, _, hwriter, hstage, hdb, hturn, hothers⟩
      · rw [hsame]
        exact hnow
      · by_contra hlost
        rw [hdb] at hlost
        obtain ⟨held, hheld, hclash⟩ := hguarded state turn writer value
          hreachable hwriter hstage hnow hlost
        by_cases heq : turn = index
        · subst heq
          rw [hturn] at hfound
          obtain rfl := Option.some.inj hfound
          cases hrun
        · rw [hothers index (Ne.symm heq)] at hfound
          have hwriting : writer.stage.isRunning = true := by
            rw [hstage]
            rfl
          have hexclusive := Server.reachable_exclusive hreachable turn index
            writer session heq hwriter hfound held
            (by rwa [Session.locks_of_running L hwriting]) lock
            (by
              rw [Session.locks_of_running L hrun]
              exact hissued.subset_held hlock)
          rw [hclash lock hguard] at hexclusive
          cases hexclusive
  exact hinv index session hsession hrunning before item hissued lock hlock
    hguard hbase

/-- Every statement a body issues satisfies `Q` of the statements before it,
whatever the others committed in between, and `post` holds of the statements
of a body that reaches its commit. -/
def Program.IssuesAfter (Q : List (Ran M) → Stmt → Prop)
    (post : List (Ran M) → α → Prop) :
    List (Ran M) → Program Stmt Result E α → Prop
  | trace, .commit value => post trace value
  | _, .rollback _ => True
  | trace, .statement _ stmt next =>
      Q trace stmt ∧ ∀ item : Ran M, ∀ hstmt : item.stmt = stmt,
        item.view = M.apply item.base (written trace) →
        (next (hstmt ▸ item.result)).IssuesAfter Q post (trace ++ [item])

theorem Program.issuesAfter_bind {β : Type} {Q : List (Ran M) → Stmt → Prop}
    {post : List (Ran M) → β → Prop} {first : Program Stmt Result E α}
    {f : α → Program Stmt Result E β} {trace : List (Ran M)}
    (h : first.IssuesAfter Q
      (fun trace value => (f value).IssuesAfter Q post trace) trace) :
    (first >>= f).IssuesAfter Q post trace := by
  induction first generalizing trace with
  | commit value => exact h
  | rollback error => trivial
  | statement label stmt next ih =>
      refine ⟨h.1, ?_⟩
      intro item hstmt hview
      exact ih _ (h.2 item hstmt hview)

/-- Every statement of a body satisfies `P`. -/
def Program.Only (P : Stmt → Prop) : Program Stmt Result E α → Prop
  | .commit _ => True
  | .rollback _ => True
  | .statement _ stmt next => P stmt ∧ ∀ result, (next result).Only P

theorem Program.only_bind {β : Type} {P : Stmt → Prop}
    {first : Program Stmt Result E α} {f : α → Program Stmt Result E β}
    (hfirst : first.Only P) (hf : ∀ value, (f value).Only P) :
    (first >>= f).Only P := by
  induction first with
  | commit value => exact hf value
  | rollback error => trivial
  | statement label stmt next ih =>
      exact ⟨hfirst.1, fun result => ih result (hfirst.2 result)⟩

theorem Program.Only.issuesAfter {P : Stmt → Prop}
    {Q : List (Ran M) → Stmt → Prop} {first : Program Stmt Result E α}
    (h : first.Only P) (hQ : ∀ trace stmt, P stmt → Q trace stmt)
    (trace : List (Ran M)) :
    first.IssuesAfter Q (fun _ _ => True) trace := by
  induction first generalizing trace with
  | commit value => trivial
  | rollback error => trivial
  | statement label stmt next ih =>
      refine ⟨hQ trace stmt h.1, ?_⟩
      intro item hstmt hview
      exact ih _ (h.2 _) _

/-- A session ran its statements as its body issues them. -/
structure Session.Disciplined (Q : List (Ran M) → Stmt → Prop)
    (post : List (Ran M) → α → Prop) (session : Session M Op α) :
    Prop where
  issued : ∀ before item, session.Issued before item →
    Q before item.stmt ∧
      item.view = M.apply item.base (written before)
  rest : ∀ rest, session.stage = .running rest →
    rest.IssuesAfter Q post session.trace

theorem Session.Disciplined.advance {Q : List (Ran M) → Stmt → Prop}
    {post : List (Ran M) → α → Prop} {db : Db}
    {session next : Session M Op α} (h : session.Disciplined Q post)
    (hadvances : session.Advances db next) : next.Disciplined Q post := by
  cases hadvances with
  | ran item hstage hbase hview =>
      have hrest := h.rest _ hstage
      have hviewed : item.view = M.apply item.base (written session.trace) := by
        rw [hview, hbase]
        rfl
      constructor
      · intro before other hissued
        rw [Session.Issued, List.prefix_concat_iff] at hissued
        rcases hissued with hlast | hearlier
        · obtain ⟨rfl, hitem⟩ := List.append_inj' hlast rfl
          obtain rfl := List.singleton_inj.mp hitem
          exact ⟨hrest.1, hviewed⟩
        · exact h.issued before other hearlier
      · intro rest hrunning
        obtain rfl := Stage.running.inj hrunning
        exact hrest.2 item rfl hviewed
  | faulted _ _ | committed _ | refused _ | aborted _ _ =>
      exact ⟨h.issued, fun rest hrunning => by cases hrunning⟩

theorem Server.reachable_disciplined {Q : List (Ran M) → Stmt → Prop}
    {post : List (Ran M) → α → Prop} {server : Server M Op α}
    (h : (Server.machine L body initial).Reachable server) {index : Nat}
    {session : Session M Op α}
    (hsession : server.sessions[index]? = some session)
    (hbody : (body session.op).IssuesAfter Q post []) :
    session.Disciplined Q post := by
  refine Server.reachable_sessions (fun session : Session M Op α =>
    (body session.op).IssuesAfter Q post [] →
      session.Disciplined Q post) ?_ ?_ h hsession hbody
  · intro op hbody
    constructor
    · intro before item hissued
      have hnil := hissued.length_le
      simp [Session.start] at hnil
    · intro rest hrunning
      obtain rfl := Stage.running.inj hrunning
      exact hbody
  · intro db session next hadvances hsession hbody
    rw [hadvances.op_eq] at hbody
    exact (hsession hbody).advance hadvances

/-- No statement of a body fails, whatever it observes, and the body never
rolls back. -/
def Program.Total (M : StatementModel Stmt Result Db Env Effect Fault E) :
    Program Stmt Result E α → Prop
  | .commit _ => True
  | .rollback _ => False
  | .statement _ stmt next =>
      (∀ env db fault, M.exec stmt env db ≠ .error fault) ∧
        ∀ result, (next result).Total M

/-- Where a session with a total body can stand. -/
def Stage.Total (M : StatementModel Stmt Result Db Env Effect Fault E) :
    Stage Stmt Result E α → Prop
  | .running rest => rest.Total M
  | .committed _ => True
  | .refused _ => False
  | .aborted _ => True

/-- A session whose body is total is never refused. -/
theorem Server.reachable_total {server : Server M Op α}
    (h : (Server.machine L body initial).Reachable server) {index : Nat}
    {session : Session M Op α}
    (hsession : server.sessions[index]? = some session)
    (hbody : (body session.op).Total M) : session.stage.Total M := by
  refine Server.reachable_sessions (fun session : Session M Op α =>
    (body session.op).Total M → session.stage.Total M) ?_ ?_ h hsession hbody
  · intro op hbody
    exact hbody
  · intro db session next hadvances hsession hbody
    rw [hadvances.op_eq] at hbody
    have htotal := hsession hbody
    cases hadvances with
    | ran item hrunning _ _ =>
        rw [hrunning] at htotal
        exact htotal.2 item.result
    | faulted hrunning hexec =>
        rw [hrunning] at htotal
        exact absurd hexec (htotal.1 _ _ _)
    | refused hrunning =>
        rw [hrunning] at htotal
        exact htotal
    | committed _ | aborted _ _ => trivial

/-- As long as no statement passes the fence, a body writes nothing and ends
with a refusal. -/
def Program.Fenced (M : StatementModel Stmt Result Db Env Effect Fault E)
    (passes : Stmt → Db → Prop) (refusal : Except E α → Prop) :
    Program Stmt Result E α → Prop
  | .commit value => refusal (.ok value)
  | .rollback error => refusal (.error error)
  | .statement label stmt next =>
      ∀ env db, ¬ passes stmt db →
        match M.exec stmt env db with
        | .error fault => refusal (.error (M.report label fault))
        | .ok (result, changes) =>
            changes = [] ∧ (next result).Fenced M passes refusal

/-- Where a session that passed no fence stands. -/
def Stage.Refusing (M : StatementModel Stmt Result Db Env Effect Fault E)
    (passes : Stmt → Db → Prop) (refusal : Except E α → Prop) :
    Stage Stmt Result E α → Prop
  | .running rest => rest.Fenced M passes refusal
  | .committed value => refusal (.ok value)
  | .refused error => refusal (.error error)
  | .aborted _ => True

/-- A session that passed no fence has written nothing and can only refuse. -/
def Session.Behind (passes : Stmt → Db → Prop) (refusal : Except E α → Prop)
    (session : Session M Op α) : Prop :=
  session.pending = [] ∧ session.stage.Refusing M passes refusal

/-- A statement passed the fence before its session changed anything. -/
def Session.Passed (passes : Stmt → Db → Prop) (session : Session M Op α) :
    Prop :=
  ∃ before item, session.Issued before item ∧ passes item.stmt item.base ∧
    item.view = item.base

/-- A session stays behind the fence unless the statement it runs passes. -/
theorem Session.Behind.ran {passes : Stmt → Db → Prop}
    {refusal : Except E α → Prop} {db : Db} {session : Session M Op α}
    {label : String} {item : Ran M}
    {next : Result item.stmt → Program Stmt Result E α}
    (h : session.Behind passes refusal)
    (hrunning : session.stage = .running (.statement label item.stmt next))
    (hbase : item.base = db) (hview : item.view = M.apply db session.pending) :
    (passes item.stmt db ∧ item.view = item.base) ∨
      Session.Behind passes refusal
        { session with
          trace := session.trace ++ [item]
          stage := .running (next item.result) } := by
  obtain ⟨hpending, hstage⟩ := h
  rw [hrunning] at hstage
  rw [hpending, M.apply_nil] at hview
  by_cases hpasses : passes item.stmt db
  · exact Or.inl ⟨hpasses, hview.trans hbase.symm⟩
  · have hnext := hstage item.env db hpasses
    rw [← hview, item.executed] at hnext
    refine Or.inr ⟨?_, hnext.2⟩
    simp only [Session.pending, written] at hpending
    simp [Session.pending, written, hpending, hnext.1]

/-- Over a database in which no statement fails that would have passed, a
session stays behind the fence or has just passed it. -/
theorem Session.Behind.advance {passes : Stmt → Db → Prop}
    {refusal : Except E α → Prop} {db : Db} {session next : Session M Op α}
    (h : session.Behind passes refusal) (hadvances : session.Advances db next)
    (hfaults : ∀ {stmt env fault}, M.exec stmt env db = .error fault →
      ¬ passes stmt db) :
    (∃ item ∈ next.trace, passes item.stmt db ∧ item.view = db) ∨
      next.Behind passes refusal := by
  cases hadvances with
  | ran item hrunning hbase hview =>
      rcases h.ran hrunning hbase hview with ⟨hpasses, hseen⟩ | hbehind
      · exact Or.inl ⟨item, by simp, hpasses, hseen.trans hbase⟩
      · exact Or.inr hbehind
  | @faulted label stmt env fault rest hrunning hexec =>
      obtain ⟨hpending, hstage⟩ := h
      rw [hrunning] at hstage
      rw [hpending, M.apply_nil] at hexec
      have hnext := hstage env db (hfaults hexec)
      rw [hexec] at hnext
      exact Or.inr ⟨hpending, hnext⟩
  | committed hrunning | refused hrunning =>
      obtain ⟨hpending, hstage⟩ := h
      rw [hrunning] at hstage
      exact Or.inr ⟨hpending, hstage⟩
  | aborted _ _ => exact Or.inr ⟨h.1, trivial⟩

/-- The running sessions of a fenced body. -/
theorem Server.reachable_fenced {passes : Stmt → Db → Prop}
    {refusal : Except E α → Prop} {op : Op}
    (hbody : (body op).Fenced M passes refusal) {server : Server M Op α}
    (h : (Server.machine L body initial).Reachable server) {index : Nat}
    {session : Session M Op α}
    (hsession : server.sessions[index]? = some session)
    (hop : session.op = op) (hrunning : session.stage.isRunning = true) :
    session.Passed passes ∨ session.Behind passes refusal := by
  refine Server.reachable_sessions
    (fun session : Session M Op α => session.op = op →
      session.stage.isRunning = true →
      session.Passed passes ∨ session.Behind passes refusal)
    ?_ ?_ h hsession hop hrunning
  · rintro op rfl _
    exact Or.inr ⟨rfl, hbody⟩
  · intro db session next hadvances hfenced hop hrunning
    have hrun := hadvances.running
    cases hadvances with
    | ran item hstage hbase hview =>
        rcases hfenced hop hrun with ⟨before, old, hissued, hold⟩ | hbehind
        · exact Or.inl
            ⟨before, old, hissued.trans (List.prefix_append _ _), hold⟩
        · apply (hbehind.ran hstage hbase hview).imp_left
          rintro ⟨hpasses, hseen⟩
          exact ⟨session.trace, item, List.prefix_rfl, hbase ▸ hpasses, hseen⟩
    | faulted _ _ | committed _ | refused _ | aborted _ _ => cases hrunning

end Reachability

end RowStore
