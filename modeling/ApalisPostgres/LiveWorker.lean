/-
A worker that keeps renewing its registration is left alone.  Sweeps,
takeovers, prunes and the admin path judge it by the time of its last renewal,
each by its own sample of the clock.  Each of them locks the row first, and
what it reads under the lock is the last renewal.
-/
import ApalisPostgres.PruneSafety

namespace ApalisPostgres

open RowStore

variable {rows : TaskConversion}

/-- The statement renewed the registration under the token, as a registration
or as a heartbeat. -/
def renews (worker queue token : String) (item : Ran sql) : Bool :=
  (workerChanges item.changes).any fun change =>
    change.key = (worker, queue) &&
      (change.tag = .register || change.tag = .heartbeat) &&
      change.after.bind WorkerRow.leaseToken = some token

/-- The server clock does not run backwards. -/
def clockAdvances (server : PgServer) : PgEvent → Bool
  | .statement _ env => server.sessions.all fun session =>
      session.trace.all fun item => item.env.now ≤ env.now
  | _ => true

/-- Whoever judges a registration of the queue waits at least this long. -/
def Op.patient (queue : String) (gap : Duration) : Op → Bool
  | .reenqueueOrphaned target staleAfter =>
      target ≠ queue || decide (gap ≤ staleAfter)
  | .registerWorker _ target _ _ _ staleAfter =>
      target ≠ queue || decide (gap ≤ staleAfter)
  | .pruneWorkersBatch target window _ =>
      target ≠ queue || decide (gap ≤ window)
  | _ => true

def Op.releasesUnder (worker queue token : String) : Op → Bool
  | .releaseWorker target name presented =>
      target = queue && name = worker && presented = token
  | _ => false

/-- The session wrote a renewal that the clock is less than the gap past.  A
renewal in progress counts for everybody but its own session. -/
def renewedWithin (gap : Duration) (worker queue token : String)
    (now : Timestamp) (index : Nat) (entry : PgSession × Nat) : Bool :=
  (entry.1.stage.isCommitted ||
      (entry.1.stage.isRunning && entry.2 ≠ index)) &&
    entry.1.trace.any fun item =>
      renews worker queue token item &&
        decide ((now - item.env.now) * 1000 < gap)

/-- The event leaves the worker alive: at no statement is the last renewal the
gap ago or more, no judge is less patient than the gap, and the worker does not
release its registration. -/
def keepsAlive (gap : Duration) (worker queue token : String)
    (server : PgServer) : PgEvent → Bool
  | .begin _ => true
  | .statement index env =>
      (server.sessions[index]?).all (fun session =>
        session.op.patient queue gap) &&
      server.sessions.zipIdx.any
        (renewedWithin gap worker queue token env.now index)
  | .finish index => (server.sessions[index]?).all fun session =>
      !session.op.releasesUnder worker queue token || session.pending.isEmpty
  | .abort _ _ => true

section

variable {worker queue token : String}

/-- What a renewal leaves. -/
theorem renews_change {item : Ran sql}
    (h : renews worker queue token item = true) :
    ∃ change ∈ workerChanges item.changes, change.key = (worker, queue) ∧
      (change.tag = .register ∨ change.tag = .heartbeat) ∧
      ∃ row, change.after = some row ∧ row.leaseToken = some token ∧
        row.lastSeen = item.env.now := by
  obtain ⟨change, hmem, hchange⟩ := List.any_eq_true.mp h
  simp only [Bool.and_eq_true, Bool.or_eq_true, decide_eq_true_eq] at hchange
  obtain ⟨⟨hkey, hedge⟩, htoken⟩ := hchange
  obtain ⟨row, hafter, hcarries⟩ := Option.bind_eq_some_iff.mp htoken
  refine ⟨change, hmem, hkey, hedge, row, hafter, hcarries, ?_⟩
  have hstep := (exec_executed item.executed).workerStep hmem
  generalize item.stmt = stmt at hstep
  cases hstep with
  | @register name target storage layers presented =>
      cases hafter
      cases item.view.workers.get? (name, target) <;> rfl
  | heartbeat _ _ =>
      cases hafter
      rfl
  | release _ | admin | prune _ _ _ _ => simp at hedge

theorem adminRow_of_token {now : Timestamp} {row : WorkerRow}
    (h : row.leaseToken = some token) :
    adminRow now worker queue (some row) = row := by
  have hsome : row.leaseToken.isNone = false := by rw [h]; rfl
  simp only [adminRow, hsome, Bool.false_eq_true, if_false]

theorem renews_writeLock {trace : List (Ran sql)} {item : Ran sql}
    (hitem : item ∈ trace) (h : renews worker queue token item = true) :
    ∃ lock ∈ rowLocks.held trace, WriteLock (worker, queue) lock := by
  obtain ⟨change, hmem, hkey, _⟩ := renews_change h
  obtain ⟨lock, hlock, hwrite⟩ := writeLock_of_change hmem
  exact ⟨lock, List.mem_flatMap.mpr ⟨item, hitem, hlock⟩, hkey ▸ hwrite⟩

section

variable {server after : PgServer} {index : Nat} {session : PgSession}

/-- Two sessions that run do not both hold the registration for writing. -/
theorem writers_exclusive (h : (pgServer rows).Reachable server)
    {other : Nat} {second : PgSession} (hne : index ≠ other)
    (hsession : server.sessions[index]? = some session)
    (hsecond : server.sessions[other]? = some second)
    (hrunning : session.stage.isRunning = true)
    (hother : second.stage.isRunning = true) {key : String × String}
    {lock held : Resource × LockMode}
    (hlock : lock ∈ rowLocks.held session.trace) (hwrite : WriteLock key lock)
    (hheld : held ∈ rowLocks.held second.trace)
    (hwriting : WriteLock key held) : False := by
  have hexclusive := Server.reachable_exclusive h index other session second
    hne hsession hsecond lock
    (by rwa [Session.locks_of_running rowLocks hrunning]) held
    (by rwa [Session.locks_of_running rowLocks hother])
  rw [clash_of_writeLock hwrite hwriting] at hexclusive
  cases hexclusive

/-- What a session with a renewal commits. -/
theorem renewed_row (h : (pgServer rows).Reachable server)
    (hsession : server.sessions[index]? = some session)
    (hrunning : session.stage.isRunning = true) {item : Ran sql}
    (hitem : item ∈ session.trace)
    (hrenews : renews worker queue token item = true) :
    ∃ row, (server.db.apply session.pending).workers.get? (worker, queue) =
        some row ∧ row.leaseToken = some token ∧
      row.lastSeen = item.env.now := by
  obtain ⟨change, hmem, hkey, _, row, hafter, htoken, hseen⟩ :=
    renews_change hrenews
  obtain ⟨before, hwrite⟩ := registration_write h hsession hrunning hitem hmem
  refine ⟨row, ?_, htoken, hseen⟩
  rw [← hkey, hwrite.after_eq, hafter]

end

/-- A renewal that its session has committed. -/
def Renewed (worker queue token : String) (server : PgServer)
    (item : Ran sql) : Prop :=
  ∃ (index : Nat) (session : PgSession),
    server.sessions[index]? = some session ∧
    session.stage.isCommitted = true ∧ item ∈ session.trace ∧
    renews worker queue token item = true

/-- A renewal in progress is later than the committed ones. -/
def PendingLast (worker queue token : String) (server : PgServer) : Prop :=
  ∀ (index : Nat) (session : PgSession) (item committed : Ran sql),
    server.sessions[index]? = some session →
    session.stage.isRunning = true → item ∈ session.trace →
    renews worker queue token item = true →
    Renewed worker queue token server committed →
    committed.env.now ≤ item.env.now

theorem pendingLast_step {server after : PgServer} {event : PgEvent}
    (h : (pgServer rows).Reachable server)
    (hlast : PendingLast worker queue token server)
    (hclock : clockAdvances server event = true)
    (hmoves : server.Moves rowLocks (program rows) event after) :
    PendingLast worker queue token after := by
  rintro index session item committed hsession hrunning hitem hrenews
    ⟨other, second, hsecond, hover, hcommitted, hrenewed⟩
  have hstill : ∀ {old : PgSession}, server.sessions[index]? = some old →
      old.stage.isRunning = true → item ∈ old.trace →
      server.sessions[other]? = some second →
      committed.env.now ≤ item.env.now := by
    intro old hold hrun hmem hsame
    exact hlast index old item committed hold hrun hmem hrenews
      ⟨other, second, hsame, hover, hcommitted, hrenewed⟩
  have hclash : ∀ {first : PgSession}, index ≠ other →
      server.sessions[index]? = some session →
      server.sessions[other]? = some first →
      first.stage.isRunning = true → committed ∈ first.trace → False := by
    intro first hne hsame hfirst hrun hmem
    obtain ⟨lock, hlock, hwrite⟩ := renews_writeLock hitem hrenews
    obtain ⟨held, hheld, hwriting⟩ := renews_writeLock hmem hrenewed
    exact writers_exclusive h hne hsame hfirst hrunning hrun hlock hwrite
      hheld hwriting
  cases hmoves with
  | begins op =>
      rcases Server.begin_cases hsecond with hsame | rfl
      · rcases Server.begin_cases hsession with hold | rfl
        · exact hstill hold hrunning hitem hsame
        · cases hitem
      · cases hover
  | @ran turn old label new next hold hstage _ _ _ =>
      rcases Server.replace_cases hsecond with ⟨_, hsame⟩ | ⟨_, rfl⟩
      · rcases Server.replace_cases hsession with ⟨_, hkept⟩ | ⟨rfl, rfl⟩
        · exact hstill hkept hrunning hitem hsame
        · rcases List.mem_append.mp hitem with hearlier | hnew
          · exact hstill hold (by rw [hstage]; rfl) hearlier hsame
          · obtain rfl := List.mem_singleton.mp hnew
            have hall := List.all_eq_true.mp hclock second
              (List.mem_of_getElem? hsame)
            have hbefore := List.all_eq_true.mp hall committed hcommitted
            exact of_decide_eq_true hbefore
      · cases hover
  | @committed turn old value hold hstage =>
      rcases Server.replace_cases hsession with ⟨hne, hkept⟩ | ⟨_, rfl⟩
      · rcases Server.replace_cases hsecond with ⟨_, hsame⟩ | ⟨rfl, rfl⟩
        · exact hstill hkept hrunning hitem hsame
        · exact (hclash hne hkept hold (by rw [hstage]; rfl)
            hcommitted).elim
      · cases hrunning
  | @ended turn old _ stage hold hended huncommitted _ =>
      rcases Server.replace_cases hsession with ⟨_, hkept⟩ | ⟨_, rfl⟩
      · rcases Server.replace_cases hsecond with ⟨_, hsame⟩ | ⟨_, rfl⟩
        · exact hstill hkept hrunning hitem hsame
        · rw [huncommitted] at hover
          cases hover
      · rw [hended] at hrunning
        cases hrunning

theorem pendingLast_of_run {server : PgServer}
    (h : (pgServer rows).FollowsWhere
      (fun state event => clockAdvances state event = true) idleServer
      server) : PendingLast worker queue token server := by
  have hboth : (pgServer rows).Reachable server ∧
      PendingLast worker queue token server := by
    apply h.invariant fun state => (pgServer rows).Reachable state ∧
      PendingLast worker queue token state
    · rintro state after event ⟨hreachable, hlast⟩ hclock hevent
      exact ⟨hreachable.step hevent, pendingLast_step hreachable hlast hclock
        (Server.step_cases hevent)⟩
    · refine ⟨⟨idleServer, rfl, Relation.ReflTransGen.refl⟩, ?_⟩
      intro index session item committed hsession
      simp [idleServer] at hsession
  exact hboth.2

/-- A live registration: the token holds it, its row is as young as every
committed renewal, and whoever has locked it to judge it found it young; the
judges can tell the gap from any shorter time. -/
structure LiveRegistration (gap : Duration) (worker queue token : String)
    (server : PgServer) : Prop where
  row : ∃ row, server.db.workers.get? (worker, queue) = some row ∧
    row.leaseToken = some token ∧
    ∀ item, Renewed worker queue token server item →
      item.env.now ≤ row.lastSeen
  judged : ∀ (index : Nat) (session : PgSession) early seen row,
    server.sessions[index]? = some session →
    session.stage.isRunning = true → session.Issued early seen →
    (Resource.registration worker queue, LockMode.update) ∈
      rowLocks.held (early ++ [seen]) →
    server.db.workers.get? (worker, queue) = some row →
    elapsedAtLeast gap seen.env.now row.lastSeen = false ∧
      session.op.patient queue gap = true
  resolves : Resolved gap

section

variable {gap : Duration} {server : PgServer} {index : Nat}
  {session : PgSession}

/-- Whatever a session saw of a live registration, it saw it young. -/
theorem LiveRegistration.saw
    (hlive : LiveRegistration gap worker queue token server)
    (h : (pgServer rows).Reachable server)
    (hsession : server.sessions[index]? = some session)
    (hrunning : session.stage.isRunning = true) {before : List (Ran sql)}
    {item : Ran sql} (hissued : session.Issued before item)
    {found : Timestamp → Option WorkerRow → Prop}
    (hsaw : Saw before worker queue found) :
    ∃ now row, server.db.workers.get? (worker, queue) = some row ∧
      row.leaseToken = some token ∧ found now (some row) ∧
      elapsedAtLeast gap now row.lastSeen = false ∧
      session.op.patient queue gap = true := by
  obtain ⟨row, hrow, htoken, _⟩ := hlive.row
  obtain ⟨early, seen, hseen, _, _, hfound, hlocked⟩ :=
    hsaw.still h hsession hrunning hissued
  rw [hrow] at hfound hlocked
  obtain ⟨hfresh, hpatient⟩ := hlive.judged index session early seen row
    hsession hrunning hseen (hlocked rfl) hrow
  exact ⟨seen.env.now, row, hrow, htoken, hfound, hfresh, hpatient⟩

/-- Nobody patient has found a live registration stale. -/
theorem LiveRegistration.not_stale
    (hlive : LiveRegistration gap worker queue token server)
    (h : (pgServer rows).Reachable server)
    (hsession : server.sessions[index]? = some session)
    (hrunning : session.stage.isRunning = true) {before : List (Ran sql)}
    {item : Ran sql} (hissued : session.Issued before item)
    {window : Duration}
    (hwindow : session.op.patient queue gap = true → gap ≤ window) :
    ¬ Saw before worker queue (SeenStale window) := by
  intro hsaw
  obtain ⟨now, row, _, _, ⟨found, hfound, hstale⟩, hfresh, hpatient⟩ :=
    hlive.saw h hsession hrunning hissued hsaw
  obtain rfl := Option.some.inj hfound
  rw [elapsedAtLeast_anti hlive.resolves.bounded hstale
    (hwindow hpatient)] at hfresh
  cases hfresh

/-- What a registration finds in place of a live one is its own token. -/
theorem LiveRegistration.registers
    (hlive : LiveRegistration gap worker queue token server)
    (h : (pgServer rows).Reachable server)
    (hsession : server.sessions[index]? = some session)
    (hrunning : session.stage.isRunning = true) {before : List (Ran sql)}
    {item : Ran sql} (hissued : session.Issued before item)
    {storage layers presented : String}
    (hstmt : item.stmt =
      .upsertRegistration worker queue storage layers presented) :
    presented = token := by
  have hordered := (session_ordered h hsession hissued).1
  rw [hstmt] at hordered
  obtain ⟨_, _, staleAfter, hop, hsaw⟩ := hordered
  obtain ⟨now, row, _, htoken, hfound, hfresh, hpatient⟩ :=
    hlive.saw h hsession hrunning hissued hsaw
  rcases hfound with hnone | ⟨found, hfound, hstale⟩ | ⟨found, hfound, hown⟩
  · cases hnone
  · obtain rfl := Option.some.inj hfound
    have hwindow : gap ≤ staleAfter := by
      simpa [hop, Op.patient] using hpatient
    rw [elapsedAtLeast_anti hlive.resolves.bounded hstale hwindow]
      at hfresh
    cases hfresh
  · obtain rfl := Option.some.inj hfound
    exact Option.some.inj (hown.symm.trans htoken)

/-- A session renews a live registration, leaves it as it is, or is the
worker's own release. -/
theorem LiveRegistration.writes
    (hlive : LiveRegistration gap worker queue token server)
    (h : (pgServer rows).Reachable server)
    (hsession : server.sessions[index]? = some session)
    (hrunning : session.stage.isRunning = true) :
    (∃ item ∈ session.trace, renews worker queue token item = true) ∨
      (server.db.apply session.pending).workers.get? (worker, queue) =
        server.db.workers.get? (worker, queue) ∨
      (session.op.releasesUnder worker queue token = true ∧
        session.pending ≠ []) := by
  obtain ⟨row, hrow, htoken, _⟩ := hlive.row
  rcases registration_cases h hsession hrunning (worker, queue) with
    ⟨_, hsame⟩ | ⟨before, item, change, hkey, hwrite⟩
  · exact Or.inr (Or.inl hsame)
  · have hread := hwrite.before_eq
    have hafter := hwrite.after_eq
    rw [hkey] at hread hafter
    rw [hrow] at hread
    have hissued := hwrite.issued
    have hmem := hwrite.mem
    have hitem : item ∈ session.trace :=
      hissued.subset (List.mem_append_right _ List.mem_cons_self)
    have hordered := hwrite.ordered
    have hrenewal : (change.tag = .register ∨ change.tag = .heartbeat) →
        change.after.bind WorkerRow.leaseToken = some token →
        renews worker queue token item = true := by
      intro htag hleft
      refine List.any_eq_true.mpr ⟨change, hmem, ?_⟩
      simp only [Bool.and_eq_true, Bool.or_eq_true, decide_eq_true_eq]
      exact ⟨⟨hkey, htag⟩, hleft⟩
    have hstep := hwrite.step
    generalize hstmt : item.stmt = stmt at hstep hordered
    cases hstep with
    | @register _ _ storage layers presented =>
        obtain ⟨rfl, rfl⟩ := Prod.mk.inj hkey
        have hown := hlive.registers h hsession hrunning hissued hstmt
        refine Or.inl ⟨item, hitem, hrenewal (Or.inl rfl) ?_⟩
        dsimp only
        rw [hread, hown]
        rfl
    | heartbeat hold hheld =>
        obtain ⟨rfl, rfl⟩ := Prod.mk.inj hkey
        rw [hread] at hold
        obtain rfl := Option.some.inj hold
        exact Or.inl ⟨item, hitem, hrenewal (Or.inr rfl) htoken⟩
    | release hold =>
        obtain ⟨rfl, rfl⟩ := Prod.mk.inj hkey
        obtain ⟨_, presented, hop, hsaw⟩ := hordered
        obtain ⟨_, found, hfound, hcarries, ⟨other, hother, hown⟩, _⟩ :=
          hlive.saw h hsession hrunning hissued hsaw
        obtain rfl := Option.some.inj hother
        obtain rfl := Option.some.inj (hown.symm.trans hcarries)
        refine Or.inr (Or.inr ⟨by simp [hop, Op.releasesUnder], ?_⟩)
        intro hnone
        have hpending : Effect.worker _ ∈ session.pending :=
          List.mem_flatMap.mpr ⟨item, hitem, mem_workerChanges.mp hmem⟩
        rw [hnone] at hpending
        cases hpending
    | admin =>
        obtain ⟨rfl, rfl⟩ := Prod.mk.inj hkey
        refine Or.inr (Or.inl ?_)
        rw [hafter, hread, hrow]
        exact congrArg some (adminRow_of_token htoken)
    | @prune target ids found hstored hqueue hid hfree =>
        obtain ⟨hname, htarget⟩ := Prod.mk.inj hkey
        obtain rfl : target = queue := hqueue.symm.trans htarget
        obtain ⟨_, window, limit, hop, hsaw⟩ := hordered
        refine absurd (hsaw worker (hname ▸ hid))
          (hlive.not_stale h hsession hrunning hissued ?_)
        intro hpatient
        simpa [hop, Op.patient] using hpatient

/-- A commit that is no release leaves the registration as young as its
renewals. -/
theorem LiveRegistration.commit_row
    (hlive : LiveRegistration gap worker queue token server)
    (h : (pgServer rows).Reachable server)
    (hlast : PendingLast worker queue token server)
    (hsession : server.sessions[index]? = some session)
    (hrunning : session.stage.isRunning = true)
    (hkept : (!session.op.releasesUnder worker queue token ||
      session.pending.isEmpty) = true) :
    ∃ row, (server.db.apply session.pending).workers.get? (worker, queue) =
        some row ∧ row.leaseToken = some token ∧
      (∀ item, Renewed worker queue token server item →
        item.env.now ≤ row.lastSeen) ∧
      ∀ item ∈ session.trace, renews worker queue token item = true →
        item.env.now ≤ row.lastSeen := by
  rcases hlive.writes h hsession hrunning with
    ⟨renewal, hmem, hrenews⟩ | hsame | ⟨hreleases, hwrote⟩
  · obtain ⟨row, hrow, htoken, hseen⟩ :=
      renewed_row h hsession hrunning hmem hrenews
    refine ⟨row, hrow, htoken, ?_, ?_⟩
    · intro item hcommitted
      rw [hseen]
      exact hlast index session renewal item hsession hrunning hmem hrenews
        hcommitted
    · intro item hitem hother
      obtain ⟨found, hfound, _, hown⟩ :=
        renewed_row h hsession hrunning hitem hother
      rw [hrow] at hfound
      obtain rfl := Option.some.inj hfound
      exact Int.le_of_eq hown.symm
  · obtain ⟨row, hrow, htoken, hyoung⟩ := hlive.row
    refine ⟨row, hsame.trans hrow, htoken, hyoung, ?_⟩
    intro item hitem hrenews
    obtain ⟨found, hfound, _, hown⟩ :=
      renewed_row h hsession hrunning hitem hrenews
    rw [hsame, hrow] at hfound
    obtain rfl := Option.some.inj hfound
    exact Int.le_of_eq hown.symm
  · rw [hreleases, Bool.not_true, Bool.false_or,
      List.isEmpty_iff] at hkept
    exact absurd hkept hwrote

/-- A registration that somebody else has locked is not written. -/
theorem judged_row_kept (h : (pgServer rows).Reachable server) {other : Nat}
    {second : PgSession} (hne : other ≠ index)
    (hsession : server.sessions[index]? = some session)
    (hsecond : server.sessions[other]? = some second)
    (hrunning : session.stage.isRunning = true)
    (hother : second.stage.isRunning = true) {early : List (Ran sql)}
    {seen : Ran sql} (hissued : second.Issued early seen)
    (hlocked : (Resource.registration worker queue, LockMode.update) ∈
      rowLocks.held (early ++ [seen])) :
    (server.db.apply session.pending).workers.get? (worker, queue) =
      server.db.workers.get? (worker, queue) := by
  rcases written_workers_cases server.db session.trace (worker, queue) with
    ⟨_, hsame⟩ | ⟨item, hitem, change, hchange, hkey⟩
  · exact hsame
  · obtain ⟨lock, hlock, hwrite⟩ := writeLock_of_change hchange
    rw [hkey] at hwrite
    exact (writers_exclusive h hne hsecond hsession hother hrunning
      (hissued.subset_held hlocked) ⟨rfl, by simp⟩
      (List.mem_flatMap.mpr ⟨item, hitem, hlock⟩) hwrite).elim

/-- A statement that locks a live registration finds it young: the last
renewal is committed, or its session would hold the row. -/
theorem LiveRegistration.judges
    (hlive : LiveRegistration gap worker queue token server)
    {after : PgServer} (hafter : (pgServer rows).Reachable after)
    {env : Env} (hsession : after.sessions[index]? = some session)
    (hrunning : session.stage.isRunning = true)
    (hothers : ∀ other second, other ≠ index →
      server.sessions[other]? = some second →
      after.sessions[other]? = some second)
    (hlocked : (Resource.registration worker queue, LockMode.update) ∈
      rowLocks.held session.trace)
    (hrenewed : server.sessions.zipIdx.any
      (renewedWithin gap worker queue token env.now index) = true)
    {row : WorkerRow}
    (hrow : server.db.workers.get? (worker, queue) = some row) :
    elapsedAtLeast gap env.now row.lastSeen = false := by
  obtain ⟨⟨second, other⟩, hentry, hwithin⟩ := List.any_eq_true.mp hrenewed
  have hsecond := List.mem_zipIdx_iff_getElem?.mp hentry
  simp only [renewedWithin, Bool.and_eq_true, Bool.or_eq_true,
    decide_eq_true_eq] at hwithin
  obtain ⟨hwho, hitems⟩ := hwithin
  obtain ⟨item, hitem, hboth⟩ := List.any_eq_true.mp hitems
  simp only [Bool.and_eq_true, decide_eq_true_eq] at hboth
  obtain ⟨hrenews, hyoung⟩ := hboth
  rcases hwho with hcommitted | ⟨hrun, hne⟩
  · obtain ⟨found, hfound, _, hseen⟩ := hlive.row
    rw [hrow] at hfound
    obtain rfl := Option.some.inj hfound
    have hle := hseen item
      ⟨other, second, hsecond, hcommitted, hitem, hrenews⟩
    rw [← Bool.not_eq_true]
    intro hstale
    have hyoung := elapsedAtLeast_young hlive.resolves hyoung
    rw [elapsedAtLeast_mono hstale le_rfl hle] at hyoung
    cases hyoung
  · obtain ⟨lock, hlock, hwrite⟩ := renews_writeLock hitem hrenews
    exact (writers_exclusive hafter hne (hothers other second hne hsecond)
      hsession hrun hrunning hlock hwrite hlocked ⟨rfl, by simp⟩).elim

/-- A live registration stays live while the worker keeps it alive. -/
theorem LiveRegistration.step
    (hlive : LiveRegistration gap worker queue token server)
    (h : (pgServer rows).Reachable server)
    (hlast : PendingLast worker queue token server) {event : PgEvent}
    (hkeeps : keepsAlive gap worker queue token server event = true)
    {after : PgServer}
    (hevent : (pgServer rows).step server event = some after) :
    LiveRegistration gap worker queue token after := by
  have hafter := h.step hevent
  obtain ⟨row, hrow, htoken, hyoung⟩ := hlive.row
  have hmoves : server.Moves rowLocks (program rows) event after :=
    Server.step_cases hevent
  cases hmoves with
  | begins op =>
      refine ⟨⟨row, hrow, htoken, ?_⟩, ?_, hlive.resolves⟩
      · rintro item ⟨other, second, hsecond, hcommitted, hitem⟩
        rcases Server.begin_cases hsecond with hsame | rfl
        · exact hyoung item ⟨other, second, hsame, hcommitted, hitem⟩
        · cases hcommitted
      · intro other second early seen found hsecond hrun hissued
        rcases Server.begin_cases hsecond with hsame | rfl
        · exact hlive.judged other second early seen found hsame hrun hissued
        · have hnil := hissued.length_le
          simp [Session.start] at hnil
  | @ran turn old label item next hold hstage hbase hview hgranted =>
      have hrunning : old.stage.isRunning = true := by rw [hstage]; rfl
      refine ⟨⟨row, hrow, htoken, ?_⟩, ?_, hlive.resolves⟩
      · rintro renewal ⟨other, second, hsecond, hcommitted, hitem⟩
        rcases Server.replace_cases hsecond with ⟨_, hsame⟩ | ⟨_, rfl⟩
        · exact hyoung renewal ⟨other, second, hsame, hcommitted, hitem⟩
        · cases hcommitted
      · intro other second early seen found hsecond hrun hissued hlocked
          hfound
        have hplace := hsecond
        rcases Server.replace_cases hsecond with ⟨_, hsame⟩ | ⟨rfl, rfl⟩
        · exact hlive.judged other second early seen found hsame hrun hissued
            hlocked hfound
        · rw [Session.Issued, List.prefix_concat_iff] at hissued
          rcases hissued with hnew | hearlier
          · obtain ⟨rfl, hitem⟩ := List.append_inj' hnew rfl
            obtain rfl := List.singleton_inj.mp hitem
            simp only [keepsAlive, hold, Option.all_some,
              Bool.and_eq_true] at hkeeps
            refine ⟨hlive.judges hafter hplace hrun ?_ hlocked hkeeps.2
              hfound, hkeeps.1⟩
            intro third held hne hheld
            exact (List.getElem?_set_ne (Ne.symm hne)).trans hheld
          · exact hlive.judged other old early seen found hold hrunning
              hearlier hlocked hfound
  | @committed turn old value hold hstage =>
      have hrunning : old.stage.isRunning = true := by rw [hstage]; rfl
      have hkept : (!old.op.releasesUnder worker queue token ||
          old.pending.isEmpty) = true := by
        simpa only [keepsAlive, hold, Option.all_some] using hkeeps
      obtain ⟨new, hnew, hcarries, hbefore, hown⟩ :=
        hlive.commit_row h hlast hold hrunning hkept
      refine ⟨⟨new, hnew, hcarries, ?_⟩, ?_, hlive.resolves⟩
      · rintro item ⟨other, second, hsecond, hcommitted, hitem, hrenews⟩
        rcases Server.replace_cases hsecond with ⟨_, hsame⟩ | ⟨_, rfl⟩
        · exact hbefore item
            ⟨other, second, hsame, hcommitted, hitem, hrenews⟩
        · exact hown item hitem hrenews
      · intro other second early seen found hsecond hrun hissued hlocked
          hfound
        rcases Server.replace_cases hsecond with ⟨hne, hsame⟩ | ⟨_, rfl⟩
        · have hstill := judged_row_kept h hne hold hsame hrunning hrun
            hissued hlocked
          exact hlive.judged other second early seen found hsame hrun hissued
            hlocked (hstill.symm.trans hfound)
        · cases hrun
  | @ended turn old _ stage hold hover huncommitted _ =>
      refine ⟨⟨row, hrow, htoken, ?_⟩, ?_, hlive.resolves⟩
      · rintro item ⟨other, second, hsecond, hcommitted, hitem⟩
        rcases Server.replace_cases hsecond with ⟨_, hsame⟩ | ⟨_, rfl⟩
        · exact hyoung item ⟨other, second, hsame, hcommitted, hitem⟩
        · rw [huncommitted] at hcommitted
          cases hcommitted
      · intro other second early seen found hsecond hrun hissued hlocked
          hfound
        rcases Server.replace_cases hsecond with ⟨_, hsame⟩ | ⟨_, rfl⟩
        · exact hlive.judged other second early seen found hsame hrun hissued
            hlocked hfound
        · rw [hover] at hrun
          cases hrun

/-- The job rows a body writes it writes by recovering for the reason. -/
def RecoversFor {α : Type} (reason : Recovery) (body : Tx α) : Prop :=
  body.Only fun stmt => ∀ env view change, JobStep env view stmt change →
    ∃ target ids, stmt = .recoverOwned target ids reason

theorem recoverOwned_recovers (target : String) (ids : List String)
    (reason : Recovery) :
    RecoversFor reason (recoverOwned target ids reason) := by
  unfold recoverOwned
  split
  · trivial
  · exact ⟨fun _ _ _ _ => ⟨target, ids, rfl⟩, fun _ => trivial⟩

theorem reenqueueOrphaned_recovers (target : String)
    (staleAfter : Duration) :
    RecoversFor .staleSweep
      (program rows (.reenqueueOrphaned target staleAfter)) := by
  refine Program.only_bind ⟨?_, fun ids => ?_⟩ fun _ => trivial
  · intro env view change hstep
    cases hstep
  · exact recoverOwned_recovers target ids .staleSweep

theorem registerWorker_recovers (name target storage layers presented : String)
    (staleAfter : Duration) :
    RecoversFor .takeover (program rows
      (.registerWorker name target storage layers presented staleAfter)) := by
  have hrow : RecoversFor .takeover
      (registerRow name target storage layers presented) := by
    refine ⟨?_, fun _ => trivial⟩
    intro env view change hstep
    cases hstep
  refine Program.only_bind ⟨?_, fun acquired => ?_⟩ fun _ => trivial
  · intro env view change hstep
    cases hstep
  · cases acquired with
    | false => trivial
    | true =>
        refine ⟨?_, fun existing => ?_⟩
        · intro env view change hstep
          cases hstep
        · change Program.Only _ (registerOver _ _ _ _ _ existing)
          unfold registerOver
          split
          · exact hrow
          · split
            · split
              · exact Program.only_bind
                  (recoverOwned_recovers target [name] .takeover)
                  fun _ => hrow
              · exact hrow
            · trivial

/-- A row that a session recovers, with the statement that does it. -/
theorem recovered_by (h : (pgServer rows).Reachable server)
    (hsession : server.sessions[index]? = some session) {reason : Recovery}
    (hbody : RecoversFor reason (program rows session.op))
    {change : JobChange} (hchange : change ∈ jobChanges session.pending) :
    ∃ before item target ids row name, session.Issued before item ∧
      Ordered session.op before (.recoverOwned target ids reason) ∧
      change.before = some row ∧ row.jobType = target ∧
      row.lockBy = some name ∧ name ∈ ids := by
  obtain ⟨item, hitem, hmem⟩ := mem_written_jobs hchange
  have hstep := (exec_executed item.executed).jobStep hmem
  obtain ⟨target, ids, hstmt⟩ :=
    session_only h hsession hbody hitem _ _ change hstep
  obtain ⟨before, later, htrace⟩ := List.append_of_mem hitem
  have hissued : session.Issued before item := by
    rw [Session.Issued, htrace]
    exact ⟨later, by simp⟩
  have hordered := (session_ordered h hsession hissued).1
  rw [hstmt] at hstep hordered
  cases hstep with
  | @recovery _ name _ _ row _ hqueue _ howner hname =>
      exact ⟨before, item, target, ids, row, name, hissued, hordered, rfl,
        hqueue, howner, hname⟩

/-- Only a registration and a heartbeat renew. -/
def Op.renewing : Op → Bool
  | .registerWorker .. | .keepAlive .. => true
  | _ => false

theorem renews_op (h : (pgServer rows).Reachable server)
    (hsession : server.sessions[index]? = some session)
    (hrunning : session.stage.isRunning = true) {item : Ran sql}
    (hitem : item ∈ session.trace)
    (hrenews : renews worker queue token item = true) :
    session.op.renewing = true := by
  obtain ⟨change, hmem, _, htag, _⟩ := renews_change hrenews
  obtain ⟨before, hwrite⟩ := registration_write h hsession hrunning hitem hmem
  have hordered := hwrite.ordered
  have hstep := hwrite.step
  generalize item.stmt = stmt at hstep hordered
  cases hstep with
  | register =>
      obtain ⟨_, _, _, hop, _⟩ := hordered
      rw [hop]
      rfl
  | heartbeat _ _ =>
      rw [hordered.1]
      rfl
  | release _ | admin | prune _ _ _ _ => simp at htag

/-- The commit of a renewal makes the registration live. -/
theorem liveRegistration_start (hgap : Resolved gap)
    (h : (pgServer rows).Reachable server)
    (hlast : PendingLast worker queue token server)
    (hsession : server.sessions[index]? = some session) {value : Outcome}
    (hstage : session.stage = .running (.commit value)) {renewal : Ran sql}
    (hrenewal : renewal ∈ session.trace)
    (hrenews : renews worker queue token renewal = true) {start : PgServer}
    (hcommit : (pgServer rows).step server (.finish index) = some start) :
    LiveRegistration gap worker queue token start := by
  have hrunning : session.stage.isRunning = true := by rw [hstage]; rfl
  simp only [pgServer, Server.machine, Server.step, hsession, hstage,
    Option.some.injEq] at hcommit
  subst hcommit
  obtain ⟨row, hrow, htoken, hseen⟩ :=
    renewed_row h hsession hrunning hrenewal hrenews
  refine ⟨⟨row, hrow, htoken, ?_⟩, ?_, hgap⟩
  · rintro item ⟨other, second, hsecond, hcommitted, hitem, hother⟩
    rw [hseen]
    rcases Server.replace_cases hsecond with ⟨_, hsame⟩ | ⟨_, rfl⟩
    · exact hlast index session renewal item hsession hrunning hrenewal
        hrenews ⟨other, second, hsame, hcommitted, hitem, hother⟩
    · obtain ⟨found, hfound, _, hown⟩ :=
        renewed_row h hsession hrunning hitem hother
      rw [hrow] at hfound
      obtain rfl := Option.some.inj hfound
      exact Int.le_of_eq (hown.symm.trans hseen)
  · -- nobody else could lock the row before the commit
    intro other second early seen found hsecond hrun hissued hlocked
    rcases Server.replace_cases hsecond with ⟨hne, hsame⟩ | ⟨_, rfl⟩
    · obtain ⟨lock, hlock, hwrite⟩ := renews_writeLock hrenewal hrenews
      exact (writers_exclusive h hne hsame hsession hrun hrunning
        (hissued.subset_held hlocked) ⟨rfl, by simp⟩ hlock hwrite).elim
    · cases hrun

end

/-- Nobody disturbs the worker: no sweep touches its rows, no other token can
commit a registration in its place, its own registration recovers nothing, and
neither the admin path nor a prune changes its row. -/
structure LeftAlone (worker queue token : String) (server : PgServer) :
    Prop where
  registered : Carries server.db worker queue token
  sweeps : ∀ (index : Nat) (session : PgSession) (staleAfter : Duration),
    server.sessions[index]? = some session →
    session.stage.isRunning = true →
    session.op = .reenqueueOrphaned queue staleAfter →
    ∀ change ∈ jobChanges session.pending, ∀ row,
      change.before = some row → row.jobType = queue →
      row.lockBy ≠ some worker
  others : ∀ (index : Nat) (session : PgSession)
    (storage layers other : String) (staleAfter : Duration) (value : Outcome),
    server.sessions[index]? = some session →
    session.op =
      .registerWorker worker queue storage layers other staleAfter →
    other ≠ token → session.stage ≠ .running (.commit value)
  own : ∀ (index : Nat) (session : PgSession) (storage layers : String)
    (staleAfter : Duration), server.sessions[index]? = some session →
    session.stage.isRunning = true →
    session.op =
      .registerWorker worker queue storage layers token staleAfter →
    jobChanges session.pending = []
  admin : ∀ (index : Nat) (session : PgSession),
    server.sessions[index]? = some session →
    session.stage.isRunning = true →
    session.op = .registerWorkerAdmin worker queue →
    (server.db.apply session.pending).workers.get? (worker, queue) =
      server.db.workers.get? (worker, queue)
  prunes : ∀ (index : Nat) (session : PgSession) (target : String)
    (window : Duration) (limit : Nat),
    server.sessions[index]? = some session →
    session.stage.isRunning = true →
    session.op = .pruneWorkersBatch target window limit →
    (server.db.apply session.pending).workers.get? (worker, queue) =
      server.db.workers.get? (worker, queue)

theorem LiveRegistration.leftAlone {gap : Duration} {server : PgServer}
    (hlive : LiveRegistration gap worker queue token server)
    (h : (pgServer rows).Reachable server) :
    LeftAlone worker queue token server := by
  obtain ⟨row, hrow, htoken, _⟩ := hlive.row
  have hunchanged : ∀ {index : Nat} {session : PgSession},
      server.sessions[index]? = some session →
      session.stage.isRunning = true → session.op.renewing = false →
      session.op.releasesUnder worker queue token = false →
      (server.db.apply session.pending).workers.get? (worker, queue) =
        server.db.workers.get? (worker, queue) := by
    intro index session hsession hrunning hrenewing hreleasing
    rcases hlive.writes h hsession hrunning with
      ⟨item, hitem, hrenews⟩ | hsame | ⟨hreleases, _⟩
    · rw [renews_op h hsession hrunning hitem hrenews] at hrenewing
      cases hrenewing
    · exact hsame
    · rw [hreleasing] at hreleases
      cases hreleases
  refine ⟨⟨row, hrow, htoken⟩, ?_, ?_, ?_, ?_, ?_⟩
  · intro index session staleAfter hsession hrunning hop change hchange old
      hold hqueue howner
    obtain ⟨before, item, target, ids, found, name, hissued, hordered,
      hbefore, htarget, hname, hmem⟩ := recovered_by h hsession
        (by rw [hop]; exact reenqueueOrphaned_recovers queue staleAfter)
        hchange
    rw [hold] at hbefore
    obtain rfl := Option.some.inj hbefore
    obtain rfl := htarget.symm.trans hqueue
    obtain rfl := Option.some.inj (hname.symm.trans howner)
    obtain ⟨window, hwindow, hsaw⟩ := hordered
    refine hlive.not_stale h hsession hrunning hissued ?_ (hsaw _ hmem)
    intro hpatient
    simpa [hwindow, Op.patient] using hpatient
  · intro index session storage layers other staleAfter value hsession hop
      hother hstage
    have hrunning : session.stage.isRunning = true := by rw [hstage]; rfl
    have hcompleted := (Server.reachable_disciplined h hsession
      (program_ordered rows session.op)).rest _ hstage
    rw [hop] at hcompleted
    obtain ⟨item, hitem, hstmt⟩ := hcompleted
    obtain ⟨before, later, htrace⟩ := List.append_of_mem hitem
    have hissued : session.Issued before item := by
      rw [Session.Issued, htrace]
      exact ⟨later, by simp⟩
    exact hother (hlive.registers h hsession hrunning hissued hstmt)
  · intro index session storage layers staleAfter hsession hrunning hop
    apply List.eq_nil_iff_forall_not_mem.mpr
    intro change hchange
    obtain ⟨before, item, target, ids, found, name, hissued, hordered, _⟩ :=
      recovered_by h hsession (by
        rw [hop]
        exact registerWorker_recovers worker queue storage layers token
          staleAfter) hchange
    obtain ⟨_, _, _, _, window, hwindow, _, hsaw⟩ := hordered
    rw [hop] at hwindow
    cases hwindow
    obtain ⟨now, found, _, hcarries, hfound, hfresh, hpatient⟩ :=
      hlive.saw h hsession hrunning hissued hsaw
    rcases hfound with ⟨other, hother, hstale⟩ | ⟨other, hother, hforeign⟩
    · obtain rfl := Option.some.inj hother
      have hlonger : gap ≤ staleAfter := by
        simpa [hop, Op.patient] using hpatient
      rw [elapsedAtLeast_anti hlive.resolves.bounded hstale hlonger]
        at hfresh
      cases hfresh
    · obtain rfl := Option.some.inj hother
      exact hforeign hcarries
  · intro index session hsession hrunning hop
    exact hunchanged hsession hrunning (by rw [hop]; rfl) (by rw [hop]; rfl)
  · intro index session target window limit hsession hrunning hop
    exact hunchanged hsession hrunning (by rw [hop]; rfl) (by rw [hop]; rfl)

/-- From the commit of a renewal on, and as long as the worker renews within
the gap, does not release, and nobody who judges it is less patient than the
gap, the worker is left alone in every interleaving.  The gap is one that a
double tells from every time short of it, as it does every gap below 2^23
seconds and those of whole microseconds below 2^33 seconds. -/
theorem live_worker_left_alone {gap : Duration} (hgap : Resolved gap)
    {server start now : PgServer} {index : Nat} {session : PgSession}
    {value : Outcome}
    (hbefore : (pgServer rows).FollowsWhere
      (fun state event => clockAdvances state event = true) idleServer server)
    (hsession : server.sessions[index]? = some session)
    (hstage : session.stage = .running (.commit value))
    (hrenews : session.trace.any (renews worker queue token) = true)
    (hcommit : (pgServer rows).step server (.finish index) = some start)
    (hlive : (pgServer rows).FollowsWhere
      (fun state event => (clockAdvances state event &&
        keepsAlive gap worker queue token state event) = true) start now) :
    LeftAlone worker queue token now := by
  have hserver : (pgServer rows).Reachable server :=
    ⟨idleServer, rfl, hbefore.follows⟩
  have hlast : PendingLast worker queue token server :=
    pendingLast_of_run hbefore
  obtain ⟨renewal, hrenewal, hrenews⟩ := List.any_eq_true.mp hrenews
  have hinv : (pgServer rows).Reachable now ∧
      PendingLast worker queue token now ∧
      LiveRegistration gap worker queue token now := by
    apply hlive.invariant fun state => (pgServer rows).Reachable state ∧
      PendingLast worker queue token state ∧
      LiveRegistration gap worker queue token state
    · rintro state after event ⟨hreachable, hpending, halive⟩ hadmits hevent
      rw [Bool.and_eq_true] at hadmits
      exact ⟨hreachable.step hevent,
        pendingLast_step hreachable hpending hadmits.1
          (Server.step_cases hevent),
        halive.step hreachable hpending hadmits.2 hevent⟩
    · have hmoves : server.Moves rowLocks (program rows) (.finish index)
          start := Server.step_cases hcommit
      exact ⟨hserver.step hcommit,
        pendingLast_step hserver hlast rfl hmoves,
        liveRegistration_start hgap hserver hlast hsession hstage hrenewal
          hrenews hcommit⟩
  exact hinv.2.2.leftAlone hinv.1

/-- A worker registers, claims a task and renews after eighteen seconds.  A
sweep skips the row that the renewal holds; a registration by another token is
refused twenty seconds later, while a prune and the admin path leave the row
as it is. -/
theorem live_worker_left_alone_renewed :
    let clock : Int → Env := fun seconds =>
      { quietEnv 0 with now := toTimestamp seconds }
    let skips : Env := { clock 25 with workerLocked := fun _ => true }
    let gap : Duration := 30000000000
    let registering : List PgEvent := [
      .begin (.registerWorker "worker" "queue" storageName "" "token" gap),
      .statement 0 (clock 2), .statement 0 (clock 2), .statement 0 (clock 2)]
    let living : List PgEvent := [
      .begin (.pushTasksOnConn "queue" [sampleTask]), .statement 1 (clock 3),
      .finish 1,
      .begin (.fetchNext "worker" "queue" 10 (some "token")),
      .statement 2 (clock 4), .statement 2 (clock 4), .finish 2,
      .begin (.keepAlive "worker" "queue" "token"), .statement 3 (clock 20),
      .begin (.reenqueueOrphaned "queue" gap), .statement 4 skips,
      .finish 3,
      .begin (.registerWorker "worker" "queue" storageName "" "other" gap),
      .statement 5 (clock 40), .statement 5 (clock 40), .finish 5,
      .begin (.pruneWorkersBatch "queue" gap 1000), .statement 6 (clock 40),
      .begin (.registerWorkerAdmin "worker" "queue"), .statement 7 (clock 40)]
    let server := ((pgServer .copying).runWhere clockAdvances idleServer
      registering).getD idleServer
    let start := ((pgServer .copying).step server (.finish 0)).getD idleServer
    let now := ((pgServer .copying).runWhere (fun state event =>
      clockAdvances state event &&
        keepsAlive gap "worker" "queue" "token" state event) start
      living).getD idleServer
    (now.db.workers.get? ("worker", "queue")).map WorkerRow.lastSeen =
        some (toTimestamp 20) ∧
      (now.sessions.map fun session => session.stage.isRunning) =
        [false, false, false, false, true, false, true, true] ∧
      LeftAlone "worker" "queue" "token" now := by
  intro clock skips gap registering living server start now
  have hserver : (pgServer .copying).FollowsWhere
      (fun state event => clockAdvances state event = true) idleServer
      server :=
    Machine.followsWhere_of_run registering
      (Machine.runWhere_eq_getD idleServer (by decide +kernel))
  have hrenews : (server.sessions[0]?).any (fun session =>
      session.stage.isCommitting &&
        session.trace.any (renews "worker" "queue" "token")) = true := by
    decide +kernel
  obtain ⟨session, hsession, hboth⟩ := (Option.any_eq_true _ _).mp hrenews
  rw [Bool.and_eq_true] at hboth
  obtain ⟨value, hstage⟩ := Stage.isCommitting_iff.mp hboth.1
  have hcommit : (pgServer .copying).step server (.finish 0) = some start := by
    have hsome : ((pgServer .copying).step server (.finish 0)).isSome = true :=
      by decide +kernel
    obtain ⟨found, hfound⟩ := Option.isSome_iff_exists.mp hsome
    simp only [start, hfound, Option.getD_some]
  have hlive : (pgServer .copying).FollowsWhere
      (fun state event => (clockAdvances state event &&
        keepsAlive gap "worker" "queue" "token" state event) = true) start
      now :=
    Machine.followsWhere_of_run living
      (Machine.runWhere_eq_getD idleServer (by decide +kernel))
  exact ⟨by decide +kernel, by decide +kernel,
    live_worker_left_alone (.of_short (by decide)) hserver hsession hstage
      hboth.2 hcommit hlive⟩

end

/-- The window is 2^24 seconds and a nanosecond, which is 2^24 seconds as a
double: 2^24 seconds after its last renewal the worker is replaced. -/
theorem live_worker_replaced_early :
    ¬ ∀ (gap : Duration) (server start now : PgServer) (index : Nat)
      (session : PgSession) (value : Outcome),
      (pgServer .copying).FollowsWhere
        (fun state event => clockAdvances state event = true) idleServer
        server →
      server.sessions[index]? = some session →
      session.stage = .running (.commit value) →
      session.trace.any (renews "worker" "queue" "token") = true →
      (pgServer .copying).step server (.finish index) = some start →
      (pgServer .copying).FollowsWhere
        (fun state event => (clockAdvances state event &&
          keepsAlive gap "worker" "queue" "token" state event) = true) start
        now →
      LeftAlone "worker" "queue" "token" now := by
  let clock : Int → Env := fun seconds =>
    { quietEnv 0 with now := toTimestamp seconds }
  let gap : Duration := 16777216000000001
  let registering : List PgEvent := [
    .begin (.registerWorker "worker" "queue" storageName "" "token" gap),
    .statement 0 (clock 2), .statement 0 (clock 2), .statement 0 (clock 2)]
  let living : List PgEvent := [
    .begin (.registerWorker "worker" "queue" storageName "" "other" gap),
    .statement 1 (clock 16777218), .statement 1 (clock 16777218),
    .statement 1 (clock 16777218), .statement 1 (clock 16777218), .finish 1]
  let server := ((pgServer .copying).runWhere clockAdvances idleServer
    registering).getD idleServer
  let start := ((pgServer .copying).step server (.finish 0)).getD idleServer
  let now := ((pgServer .copying).runWhere (fun state event =>
    clockAdvances state event &&
      keepsAlive gap "worker" "queue" "token" state event) start
    living).getD idleServer
  intro hall
  have hrenews : (server.sessions[0]?).any (fun session =>
      session.stage.isCommitting &&
        session.trace.any (renews "worker" "queue" "token")) = true := by
    decide +kernel
  obtain ⟨session, hsession, hboth⟩ := (Option.any_eq_true _ _).mp hrenews
  rw [Bool.and_eq_true] at hboth
  obtain ⟨value, hstage⟩ := Stage.isCommitting_iff.mp hboth.1
  have hcommit : (pgServer .copying).step server (.finish 0) = some start := by
    have hsome : ((pgServer .copying).step server (.finish 0)).isSome = true :=
      by decide +kernel
    obtain ⟨found, hfound⟩ := Option.isSome_iff_exists.mp hsome
    simp only [start, hfound, Option.getD_some]
  have halone := hall gap server start now 0 session value
    (Machine.followsWhere_of_run registering
      (Machine.runWhere_eq_getD idleServer (by decide +kernel)))
    hsession hstage hboth.2 hcommit
    (Machine.followsWhere_of_run living
      (Machine.runWhere_eq_getD idleServer (by decide +kernel)))
  obtain ⟨row, hrow, htoken⟩ := halone.registered
  have hreplaced : (now.db.workers.get? ("worker", "queue")).bind
      WorkerRow.leaseToken = some "other" := by decide +kernel
  rw [hrow, Option.bind_some, htoken] at hreplaced
  simp at hreplaced

end ApalisPostgres
