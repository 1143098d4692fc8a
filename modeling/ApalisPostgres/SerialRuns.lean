/-
Sessions that exclude each other.  When every body that writes takes one lock
before anything else, a session runs as if it were alone from its first
statement to its commit, and the committed database is what its writers leave
when they run one after the other, in the order of their commits.
-/
import ApalisPostgres.Interleaving
import Mathlib.Data.List.Nodup

namespace RowStore

variable {Stmt : Type} {Result : Stmt → Type}
variable {Db Env Effect Fault E α Op Resource Mode : Type}
variable {M : StatementModel Stmt Result Db Env Effect Fault E}
variable (body : Op → Program Stmt Result E α)

/-- The body, run alone over the database, continues with what the session
still has to run, once its statements observe what is listed. -/
def Session.Alone (db : Db) (session : Session M Op α) : Prop :=
  ∀ rest, session.stage = .running rest →
    ∃ observed : List Env, observed.length = session.trace.length ∧
      ∀ env : Nat → Env, (∀ n seen, observed[n]? = some seen → env n = seen) →
        (body session.op).runBody M env 0 db [] =
          rest.runBody M env session.trace.length
            (M.apply db session.pending) session.pending

variable {body}

theorem Session.Alone.start (db : Db) (op : Op) :
    (Session.start body op : Session M Op α).Alone body db := by
  intro rest hrunning
  obtain rfl := Stage.running.inj hrunning
  refine ⟨[], rfl, ?_⟩
  intro env _
  simp [Session.start, Session.pending, written, M.apply_nil]

/-- A statement that ran over this database is the next one of the body. -/
theorem Session.Alone.ran {db : Db} {session : Session M Op α}
    (h : session.Alone body db) {label : String} {item : Ran M}
    {next : Result item.stmt → Program Stmt Result E α}
    (hstage : session.stage = .running (.statement label item.stmt next))
    (hview : item.view = M.apply db session.pending) :
    Session.Alone body db { session with
      trace := session.trace ++ [item]
      stage := .running (next item.result) } := by
  intro rest hrunning
  obtain rfl := Stage.running.inj hrunning
  obtain ⟨observed, hlength, halone⟩ := h _ hstage
  refine ⟨observed ++ [item.env], by simp [hlength], ?_⟩
  intro env hobserved
  have hbefore : ∀ n seen, observed[n]? = some seen → env n = seen := by
    intro n seen hseen
    apply hobserved
    obtain ⟨hn, _⟩ := List.getElem?_eq_some_iff.mp hseen
    rw [List.getElem?_append_left hn]
    exact hseen
  have hnow : env session.trace.length = item.env := by
    apply hobserved
    rw [← hlength, List.getElem?_append_right (Nat.le_refl _)]
    simp
  have hexec : M.exec item.stmt (env session.trace.length)
      (M.apply db session.pending) = .ok (item.result, item.changes) := by
    rw [hnow, ← hview]
    exact item.executed
  rw [halone env hbefore, Program.runBody_statement hexec]
  simp [Session.pending, written, M.apply_append]

/-- A session that reached its commit is one whole transaction. -/
theorem Session.Alone.commits [Inhabited Env] {db : Db}
    {session : Session M Op α} (h : session.Alone body db) {value : α}
    (hstage : session.stage = .running (.commit value)) :
    ∃ env : Nat → Env, (body session.op).execute M env db =
      ⟨M.apply db session.pending, session.pending, .ok value⟩ := by
  obtain ⟨observed, _, halone⟩ := h _ hstage
  refine ⟨fun n => observed[n]?.getD default, ?_⟩
  apply Program.execute_of_runBody
  rw [halone _ (fun n seen hseen => by simp [hseen])]
  rfl

/-- The first statement of a body takes the lock. -/
def Program.TakesFirst (L : LockModel M Resource Mode)
    (lock : Resource × Mode) : Program Stmt Result E α → Prop
  | .commit _ => True
  | .rollback _ => True
  | .statement _ stmt _ =>
      ∀ item : Ran M, item.stmt = stmt → lock ∈ L.acquires item

/-- A statement that changes nothing, whatever it observes. -/
def StatementModel.Reads
    (M : StatementModel Stmt Result Db Env Effect Fault E) (stmt : Stmt) :
    Prop :=
  ∀ env db result changes, M.exec stmt env db = .ok (result, changes) →
    changes = []

/-- One committed transaction of a serial run. -/
structure SerialRun (Op Env : Type) where
  /-- the session that committed it -/
  session : Nat
  op : Op
  env : Nat → Env

variable (M body) in
/-- Whole transactions that committed one after the other. -/
inductive Serially (initial : Db) : List (SerialRun Op Env) → Db → Prop where
  | nil : Serially initial [] initial
  | concat {runs : List (SerialRun Op Env)} {db after : Db}
      {run : SerialRun Op Env} {effects : List Effect} {value : α}
      (hruns : Serially initial runs db)
      (hrun : (body run.op).execute M run.env db =
        ⟨after, effects, .ok value⟩) :
      Serially initial (runs ++ [run]) after

variable {L : LockModel M Resource Mode} [DecidableEq Resource]
variable {lock : Resource × Mode} {initial : Db}

/-- A writer that ran anything holds the lock; until then its whole body is
ahead of it. -/
structure Session.Holding (L : LockModel M Resource Mode)
    (lock : Resource × Mode) (body : Op → Program Stmt Result E α)
    (session : Session M Op α) : Prop where
  held : session.trace ≠ [] → lock ∈ L.held session.trace
  ahead : session.trace = [] → ∀ rest, session.stage = .running rest →
    rest = body session.op

theorem Server.reachable_holding {server : Server M Op α}
    (h : (Server.machine L body initial).Reachable server) {index : Nat}
    {session : Session M Op α}
    (hsession : server.sessions[index]? = some session)
    (htakes : (body session.op).TakesFirst L lock) :
    session.Holding L lock body := by
  refine Server.reachable_sessions (fun session : Session M Op α =>
    (body session.op).TakesFirst L lock → session.Holding L lock body)
    ?_ ?_ h hsession htakes
  · intro op _
    refine ⟨fun hnil => absurd rfl hnil, ?_⟩
    intro _ rest hrunning
    exact (Stage.running.inj hrunning).symm
  · intro db session next hadvances hsession htakes
    rw [hadvances.op_eq] at htakes
    have hholding := hsession htakes
    cases hadvances with
    | @ran label item rest hstage _ _ =>
        refine ⟨?_, fun hnil => by simp at hnil⟩
        intro _
        by_cases hfirst : session.trace = []
        · have hbody := hholding.ahead hfirst _ hstage
          rw [← hbody] at htakes
          simpa [hfirst, LockModel.held] using htakes item rfl
        · exact List.mem_flatMap.mpr <| by
            obtain ⟨taken, htaken, hlock⟩ :=
              List.mem_flatMap.mp (hholding.held hfirst)
            exact ⟨taken, List.mem_append_left _ htaken, hlock⟩
    | faulted _ _ | committed _ | refused _ | aborted _ _ =>
        exact ⟨hholding.held, fun _ rest hrunning => by cases hrunning⟩

/-- A body of reading statements leaves nothing to commit. -/
theorem Server.reachable_reading {server : Server M Op α}
    (h : (Server.machine L body initial).Reachable server) {index : Nat}
    {session : Session M Op α}
    (hsession : server.sessions[index]? = some session)
    (hreads : (body session.op).Only M.Reads) : session.pending = [] := by
  have hboth : session.pending = [] ∧ ∀ rest,
      session.stage = .running rest → rest.Only M.Reads := by
    refine Server.reachable_sessions (fun session : Session M Op α =>
      (body session.op).Only M.Reads → session.pending = [] ∧ ∀ rest,
        session.stage = .running rest → rest.Only M.Reads)
      ?_ ?_ h hsession hreads
    · intro op hreads
      refine ⟨rfl, ?_⟩
      intro rest hrunning
      obtain rfl := Stage.running.inj hrunning
      exact hreads
    · intro db session next hadvances hsession hreads
      rw [hadvances.op_eq] at hreads
      obtain ⟨hpending, hrest⟩ := hsession hreads
      cases hadvances with
      | ran item hstage _ _ =>
          obtain ⟨hread, hnext⟩ := hrest _ hstage
          have hnil := hread _ _ _ _ item.executed
          constructor
          · simpa [Session.pending, written, hnil] using hpending
          · intro rest hrunning
            obtain rfl := Stage.running.inj hrunning
            exact hnext item.result
      | faulted _ _ | committed _ | refused _ | aborted _ _ =>
          exact ⟨hpending, fun rest hrunning => by cases hrunning⟩
  exact hboth.1

/-- The committed transactions of the writers, in the order of their commits,
and what each writer in progress has run so far. -/
structure Server.Serial (L : LockModel M Resource Mode)
    (lock : Resource × Mode) (body : Op → Program Stmt Result E α)
    (initial : Db) (server : Server M Op α)
    (runs : List (SerialRun Op Env)) : Prop where
  db : Serially M body initial runs server.db
  once : (runs.map SerialRun.session).Nodup
  takes : ∀ run ∈ runs, (body run.op).TakesFirst L lock
  ended : ∀ run ∈ runs, ∃ session, server.sessions[run.session]? = some session ∧
    session.stage.isRunning = false
  alone : ∀ (index : Nat) (session : Session M Op α),
    server.sessions[index]? = some session →
    (body session.op).TakesFirst L lock → session.Alone body server.db
  committed : ∀ (index : Nat) (session : Session M Op α) (value : α),
    server.sessions[index]? = some session →
    (body session.op).TakesFirst L lock → session.stage = .committed value →
    ∃ before env after db,
      runs = before ++ ⟨index, session.op, env⟩ :: after ∧
      Serially M body initial before db ∧
      (body session.op).execute M env db =
        ⟨M.apply db session.pending, session.pending, .ok value⟩

/-- A session that is over stays as it is. -/
theorem Server.Moves.kept {server after : Server M Op α}
    {event : ServerEvent Op Env E} (h : server.Moves L body event after)
    {index : Nat} {session : Session M Op α}
    (hsession : server.sessions[index]? = some session)
    (hover : session.stage.isRunning = false) :
    after.sessions[index]? = some session := by
  have hset : ∀ {turn : Nat} {old new : Session M Op α},
      server.sessions[turn]? = some old → old.stage.isRunning = true →
      (server.sessions.set turn new)[index]? = some session := by
    intro turn old new hold hrunning
    rw [List.getElem?_set_ne]
    · exact hsession
    · rintro rfl
      rw [hsession] at hold
      obtain rfl := Option.some.inj hold
      rw [hover] at hrunning
      cases hrunning
  cases h with
  | begins op =>
      obtain ⟨hindex, _⟩ := List.getElem?_eq_some_iff.mp hsession
      exact (List.getElem?_append_left hindex).trans hsession
  | ran item hold hstage _ _ _ => exact hset hold (by rw [hstage]; rfl)
  | committed hold hstage => exact hset hold (by rw [hstage]; rfl)
  | ended hold _ _ hadvances => exact hset hold hadvances.running

/-- A session commits by one event, which writes what it left. -/
theorem Server.Moves.newly_committed {server after : Server M Op α}
    {event : ServerEvent Op Env E} (h : server.Moves L body event after)
    {index : Nat} {session : Session M Op α}
    (hsession : after.sessions[index]? = some session)
    (hcommitted : session.stage.isCommitted = true) :
    server.sessions[index]? = some session ∨
      ∃ writer value, server.sessions[index]? = some writer ∧
        writer.stage = .running (.commit value) ∧
        after.db = M.apply server.db writer.pending ∧
        after.sessions[index]? =
          some { writer with stage := .committed value } ∧
        ∀ other ≠ index, after.sessions[other]? = server.sessions[other]? := by
  cases h with
  | begins op =>
      rcases Server.begin_cases hsession with hold | rfl
      · exact Or.inl hold
      · cases hcommitted
  | ran item hold hstage _ _ _ =>
      rcases Server.replace_cases hsession with ⟨_, hkept⟩ | ⟨_, rfl⟩
      · exact Or.inl hkept
      · cases hcommitted
  | @committed turn writer value hold hstage =>
      rcases Server.replace_cases hsession with ⟨_, hkept⟩ | ⟨rfl, rfl⟩
      · exact Or.inl hkept
      · refine Or.inr ⟨writer, value, hold, hstage, rfl, hsession, ?_⟩
        intro other hother
        exact List.getElem?_set_ne (Ne.symm hother)
  | ended hold _ huncommitted _ =>
      rcases Server.replace_cases hsession with ⟨_, hkept⟩ | ⟨_, rfl⟩
      · exact Or.inl hkept
      · rw [huncommitted] at hcommitted
        cases hcommitted

omit [DecidableEq Resource] in
/-- A writer that has not run anything runs alone over any database. -/
theorem Session.Holding.alone {session : Session M Op α}
    (h : session.Holding L lock body) (hnil : session.trace = []) (db : Db) :
    session.Alone body db := by
  intro rest hrunning
  obtain rfl := h.ahead hnil rest hrunning
  refine ⟨[], by simp [hnil], ?_⟩
  intro env _
  simp [Session.pending, written, hnil, M.apply_nil]

omit [DecidableEq Resource] in
theorem Server.Serial.start :
    Server.Serial L lock body initial (⟨initial, []⟩ : Server M Op α) [] where
  db := .nil
  once := List.nodup_nil
  takes := by simp
  ended := by simp
  alone := by simp
  committed := by simp

/-- An event that commits nothing keeps the runs. -/
theorem Server.Serial.uncommitted {server after : Server M Op α}
    {event : ServerEvent Op Env E} {runs : List (SerialRun Op Env)}
    (h : server.Serial L lock body initial runs)
    (hmoves : server.Moves L body event after) (hdb : after.db = server.db)
    (hcommitted : ∀ (index : Nat) (session : Session M Op α),
      after.sessions[index]? = some session → session.stage.isCommitted = true →
      server.sessions[index]? = some session ∨
        ¬ (body session.op).TakesFirst L lock) :
    after.Serial L lock body initial runs where
  db := by
    rw [hdb]
    exact h.db
  once := h.once
  takes := h.takes
  ended run hrun := by
    obtain ⟨session, hsession, hover⟩ := h.ended run hrun
    exact ⟨session, hmoves.kept hsession hover, hover⟩
  alone index session hsession htakes := by
    rw [hdb]
    rcases hmoves.sessions hsession with
      hold | ⟨_, op, rfl⟩ | ⟨old, hold, hadvances⟩
    · exact h.alone index session hold htakes
    · exact Session.Alone.start server.db op
    · have hop := hadvances.op_eq
      rw [hop] at htakes
      cases hadvances with
      | ran item hstage _ hview =>
          exact (h.alone index old hold htakes).ran hstage hview
      | faulted _ _ | committed _ | refused _ | aborted _ _ =>
          exact fun rest hrunning => by cases hrunning
  committed index session value hsession htakes hstage := by
    rcases hcommitted index session hsession (by rw [hstage]; rfl) with
      hold | hplain
    · exact h.committed index session value hold htakes hstage
    · exact absurd htakes hplain

/-- Nobody else is between its first statement and its commit. -/
theorem Server.Serial.others {server : Server M Op α}
    (hreachable : (Server.machine L body initial).Reachable server)
    (hclash : L.clash lock lock = true) {turn index : Nat}
    {writer session : Session M Op α}
    (hwriter : server.sessions[turn]? = some writer)
    (hwriting : writer.stage.isRunning = true)
    (hwrites : (body writer.op).TakesFirst L lock)
    (hpending : writer.pending ≠ [])
    (hsession : server.sessions[index]? = some session)
    (hrunning : session.stage.isRunning = true)
    (htakes : (body session.op).TakesFirst L lock) (hne : index ≠ turn) :
    session.trace = [] := by
  by_contra hran
  have hwritten : writer.trace ≠ [] := by
    intro hnil
    apply hpending
    simp [Session.pending, written, hnil]
  have hexclusive := Server.reachable_exclusive hreachable index turn session
    writer hne hsession hwriter lock
    (by
      rw [Session.locks_of_running L hrunning]
      exact (Server.reachable_holding hreachable hsession htakes).held hran)
    lock
    (by
      rw [Session.locks_of_running L hwriting]
      exact (Server.reachable_holding hreachable hwriter hwrites).held hwritten)
  rw [hclash] at hexclusive
  cases hexclusive

/-- The commit of a writer is the next run. -/
theorem Server.Serial.commits [Inhabited Env] {server : Server M Op α}
    {runs : List (SerialRun Op Env)}
    (hreachable : (Server.machine L body initial).Reachable server)
    (hclash : L.clash lock lock = true)
    (h : server.Serial L lock body initial runs) {turn : Nat}
    {writer : Session M Op α} {value : α}
    (hwriter : server.sessions[turn]? = some writer)
    (hstage : writer.stage = .running (.commit value))
    (htakes : (body writer.op).TakesFirst L lock)
    {after : Server M Op α} {event : ServerEvent Op Env E}
    (hmoves : server.Moves L body event after)
    (hdb : after.db = M.apply server.db writer.pending)
    (hturn : after.sessions[turn]? =
      some { writer with stage := .committed value })
    (hothers : ∀ other ≠ turn,
      after.sessions[other]? = server.sessions[other]?) :
    ∃ env, after.Serial L lock body initial (runs ++ [⟨turn, writer.op, env⟩]) := by
  have hwriting : writer.stage.isRunning = true := by rw [hstage]; rfl
  obtain ⟨env, hexecute⟩ := (h.alone turn writer hwriter htakes).commits hstage
  refine ⟨env, ?_⟩
  constructor
  · rw [hdb]
    exact h.db.concat hexecute
  · rw [List.map_append, List.map_singleton, List.nodup_append']
    refine ⟨h.once, List.nodup_singleton _, ?_⟩
    rw [List.disjoint_singleton]
    intro hmem
    obtain ⟨run, hrun, hsame⟩ := List.mem_map.mp hmem
    obtain ⟨session, hsession, hover⟩ := h.ended run hrun
    rw [hsame, hwriter] at hsession
    obtain rfl := Option.some.inj hsession
    rw [hwriting] at hover
    cases hover
  · intro run hrun
    rcases List.mem_append.mp hrun with hold | hnew
    · exact h.takes run hold
    · obtain rfl := List.mem_singleton.mp hnew
      exact htakes
  · intro run hrun
    rcases List.mem_append.mp hrun with hold | hnew
    · obtain ⟨session, hsession, hover⟩ := h.ended run hold
      exact ⟨session, hmoves.kept hsession hover, hover⟩
    · obtain rfl := List.mem_singleton.mp hnew
      exact ⟨_, hturn, rfl⟩
  · intro index session hsession hmine
    by_cases heq : index = turn
    · subst heq
      rw [hturn] at hsession
      obtain rfl := Option.some.inj hsession
      exact fun rest hrunning => by cases hrunning
    · rw [hothers index heq] at hsession
      by_cases hpending : writer.pending = []
      · rw [hdb, hpending, M.apply_nil]
        exact h.alone index session hsession hmine
      · intro rest hrunning
        have hnil := Server.Serial.others hreachable hclash hwriter hwriting
          htakes hpending hsession (by rw [hrunning]; rfl) hmine heq
        exact (Server.reachable_holding hreachable hsession hmine).alone hnil
          after.db rest hrunning
  · intro index session found hsession hmine hcommitted
    by_cases heq : index = turn
    · subst heq
      rw [hturn] at hsession
      obtain rfl := Option.some.inj hsession
      obtain rfl := Stage.committed.inj hcommitted
      exact ⟨runs, env, [], server.db, rfl, h.db, hexecute⟩
    · rw [hothers index heq] at hsession
      obtain ⟨before, seen, later, db, hruns, hran⟩ :=
        h.committed index session found hsession hmine hcommitted
      exact ⟨before, seen, later ++ [⟨turn, writer.op, env⟩], db,
        by simp [hruns], hran⟩

/-- Every reachable database is what the committed writers leave when they run
one after the other. -/
theorem Server.reachable_serial [Inhabited Env]
    (hbody : ∀ op, (body op).Only M.Reads ∨ (body op).TakesFirst L lock)
    (hclash : L.clash lock lock = true) {server : Server M Op α}
    (h : (Server.machine L body initial).Reachable server) :
    ∃ runs, server.Serial L lock body initial runs := by
  apply h.invariant_of_reachable fun server : Server M Op α =>
    ∃ runs, server.Serial L lock body initial runs
  · rintro start rfl
    exact ⟨[], Server.Serial.start⟩
  · rintro state after event hreachable ⟨runs, hserial⟩ hevent
    have hmoves := Server.step_cases hevent
    by_cases hfinish : ∃ (turn : Nat) (writer : Session M Op α) (value : α),
        state.sessions[turn]? = some writer ∧
        writer.stage = .running (.commit value) ∧
        after.db = M.apply state.db writer.pending ∧
        after.sessions[turn]? =
          some { writer with stage := .committed value } ∧
        ∀ other ≠ turn, after.sessions[other]? = state.sessions[other]?
    · obtain ⟨turn, writer, value, hwriter, hstage, hdb, hturn, hothers⟩ :=
        hfinish
      by_cases htakes : (body writer.op).TakesFirst L lock
      · obtain ⟨env, hnext⟩ := Server.Serial.commits hreachable hclash hserial
          hwriter hstage htakes hmoves hdb hturn hothers
        exact ⟨_, hnext⟩
      · have hreads := (hbody writer.op).resolve_right htakes
        have hpending := Server.reachable_reading hreachable hwriter hreads
        refine ⟨runs, hserial.uncommitted hmoves ?_ ?_⟩
        · rw [hdb, hpending, M.apply_nil]
        · intro index session hsession _
          by_cases heq : index = turn
          · subst heq
            rw [hturn] at hsession
            obtain rfl := Option.some.inj hsession
            exact Or.inr htakes
          · rw [hothers index heq] at hsession
            exact Or.inl hsession
    · refine ⟨runs, hserial.uncommitted hmoves ?_ ?_⟩
      · rcases hmoves.db_cases with hsame |
          ⟨turn, writer, value, _, hcommit⟩
        · exact hsame
        · exact absurd ⟨turn, writer, value, hcommit⟩ hfinish
      · intro index session hsession hcommitted
        rcases hmoves.newly_committed hsession hcommitted with
          hold | ⟨writer, value, hcommit⟩
        · exact Or.inl hold
        · exact absurd ⟨index, writer, value, hcommit⟩ hfinish

end RowStore
