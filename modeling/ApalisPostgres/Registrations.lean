/-
How a registration changes when sessions interleave.  Whoever commits a
registration still writes over the row it read, because it has locked that
row since; and the token of a row that somebody shares cannot change.
-/
import ApalisPostgres.RowLocks

namespace ApalisPostgres

open RowStore

variable {rows : TaskConversion}

/-- The locks of a session that may write the registration. -/
def WriteLock (key : String × String) (lock : Resource × LockMode) : Prop :=
  lock.1 = .registration key.1 key.2 ∧ lock.2 ≠ .keyShare

theorem clash_of_writeLock {key : String × String}
    {first second : Resource × LockMode} (hfirst : WriteLock key first)
    (hsecond : WriteLock key second) : rowLocks.clash first second = true := by
  obtain ⟨resource, mode⟩ := first
  obtain ⟨other, held⟩ := second
  obtain ⟨hresource, hmode⟩ := hfirst
  obtain ⟨hother, hheld⟩ := hsecond
  dsimp only at hresource hmode hother hheld
  subst hresource hother
  cases mode <;> cases held <;> simp_all [LockModel.clash, rowLocks,
    LockMode.conflicts]

/-- A written registration is locked for writing. -/
theorem writeLock_of_change {item : Ran sql} {change : WorkerChange}
    (h : change ∈ workerChanges item.changes) :
    ∃ lock ∈ rowLocks.acquires item, WriteLock change.key lock := by
  have hlocks : ∀ lock ∈ changeLocks (.worker change),
      lock ∈ rowLocks.acquires item := by
    intro lock hlock
    apply List.mem_append_right
    exact List.mem_flatMap.mpr ⟨_, mem_workerChanges.mp h, hlock⟩
  refine ⟨_, hlocks _ List.mem_cons_self, rfl, ?_⟩
  dsimp only
  split <;> simp

theorem mem_written_workers {trace : List (Ran sql)} {change : WorkerChange}
    (h : change ∈ workerChanges (written trace)) :
    ∃ item ∈ trace, change ∈ workerChanges item.changes := by
  rw [mem_workerChanges] at h
  obtain ⟨item, hitem, hchange⟩ := List.mem_flatMap.mp h
  exact ⟨item, hitem, mem_workerChanges.mpr hchange⟩

theorem written_workers_keys {trace : List (Ran sql)} {change : WorkerChange}
    (h : change ∈ workerChanges (written trace)) {row : WorkerRow}
    (hafter : change.after = some row) : row.key = change.key := by
  obtain ⟨item, _, hchange⟩ := mem_written_workers h
  exact ((exec_executed item.executed).workerStep hchange).reads.key_eq row
    hafter

/-- A row changes only by a write under its key. -/
theorem written_workers_cases (db : Db) (trace : List (Ran sql))
    (key : String × String) :
    ((∀ item ∈ trace, ∀ change ∈ workerChanges item.changes,
        change.key ≠ key) ∧
      (db.apply (written trace)).workers.get? key = db.workers.get? key) ∨
      ∃ item ∈ trace, ∃ change ∈ workerChanges item.changes,
        change.key = key := by
  by_cases hkey : key ∈ (workerChanges (written trace)).map RowChange.key
  · obtain ⟨change, hchange, rfl⟩ := List.mem_map.mp hkey
    obtain ⟨item, hitem, hmem⟩ := mem_written_workers hchange
    exact Or.inr ⟨item, hitem, change, hmem, rfl⟩
  · refine Or.inl ⟨?_, ?_⟩
    · rintro item hitem change hchange rfl
      apply hkey
      apply List.mem_map_of_mem
      rw [mem_workerChanges]
      exact List.mem_flatMap.mpr ⟨item, hitem, mem_workerChanges.mp hchange⟩
    · rw [Db.apply_workers]
      exact db.workers.get?_applyChanges_of_not_mem
        (fun change hchange row hafter => written_workers_keys hchange hafter)
        hkey

/-- A row stays as it is while somebody holds it for writing. -/
theorem registration_guarded (key : String × String)
    (found : Option WorkerRow) :
    Guarded rowLocks (program rows) .empty
      (fun db => db.workers.get? key = found) (WriteLock key) := by
  intro server index session value _ _ _ hfound hlost
  rcases written_workers_cases server.db session.trace key with
    ⟨_, hsame⟩ | ⟨item, hitem, change, hchange, rfl⟩
  · exact absurd (hsame.trans hfound) hlost
  · obtain ⟨lock, hlock, hwrite⟩ := writeLock_of_change hchange
    refine ⟨lock, List.mem_flatMap.mpr ⟨item, hitem, hlock⟩, ?_⟩
    intro guarded hguarded
    exact clash_of_writeLock hwrite hguarded

section

variable {server : PgServer} {index : Nat} {session : PgSession}

theorem session_ordered (h : (pgServer rows).Reachable server)
    (hsession : server.sessions[index]? = some session)
    {before : List (Ran sql)} {item : Ran sql}
    (hissued : session.Issued before item) :
    Ordered session.op before item.stmt ∧
      item.view = item.base.apply (written before) :=
  (Server.reachable_disciplined h hsession
    (program_ordered rows session.op)).issued before item hissued

theorem Ordered.untouched {op : Op} {before : List (Ran sql)} {stmt : Stmt}
    {env : Env} {view : Db} {change : WorkerChange}
    (h : Ordered op before stmt) (hstep : WorkerStep env view stmt change) :
    WorkersUntouched before := by
  cases hstep with
  | register => exact h.1
  | heartbeat _ _ | admin =>
      obtain ⟨_, rfl⟩ := h
      exact .nil
  | release _ => exact h.1
  | prune _ _ _ _ => exact h.1

theorem WorkersUntouched.workers_eq {before : List (Ran sql)}
    (h : WorkersUntouched before) (db : Db) :
    (db.apply (written before)).workers = db.workers := by
  apply Db.apply_workers_eq
  intro change hchange
  obtain ⟨item, hitem, hmem⟩ :=
    mem_written_workers (mem_workerChanges.mpr hchange)
  rw [h item hitem] at hmem
  cases hmem

/-- One registration written by a session, over the row that is committed. -/
structure RegistrationWrite (session : PgSession) (db : Db)
    (before : List (Ran sql)) (item : Ran sql) (change : WorkerChange) :
    Prop where
  issued : session.Issued before item
  ordered : Ordered session.op before item.stmt
  mem : change ∈ workerChanges item.changes
  step : WorkerStep item.env item.view item.stmt change
  view_eq : item.view.workers = item.base.workers
  base_eq : item.base.workers.get? change.key = db.workers.get? change.key
  after_eq : (db.apply session.pending).workers.get? change.key = change.after

/-- What a session wrote under a key it commits over the row it read. -/
theorem registration_write (h : (pgServer rows).Reachable server)
    (hsession : server.sessions[index]? = some session)
    (hrunning : session.stage.isRunning = true) {item : Ran sql}
    (hitem : item ∈ session.trace) {change : WorkerChange}
    (hchange : change ∈ workerChanges item.changes) :
    ∃ before, RegistrationWrite session server.db before item change := by
  obtain ⟨before, later, htrace⟩ := List.append_of_mem hitem
  have hissued : session.Issued before item := by
    rw [Session.Issued, htrace]
    exact ⟨later, by simp⟩
  obtain ⟨hordered, hview⟩ := session_ordered h hsession hissued
  have hexecuted := exec_executed item.executed
  have hstep := hexecuted.workerStep hchange
  have huntouched := hordered.untouched hstep
  have hviewWorkers : item.view.workers = item.base.workers := by
    rw [hview]
    exact huntouched.workers_eq item.base
  obtain ⟨lock, hlock, hwrite⟩ := writeLock_of_change hchange
  have hheld : lock ∈ rowLocks.held (before ++ [item]) :=
    List.mem_flatMap.mpr ⟨item, by simp, hlock⟩
  have hbase := (registration_guarded change.key _).stable h hsession
    hrunning hissued hheld hwrite rfl
  have honly : ∀ other ∈ later, workerChanges other.changes = [] := by
    intro other hother
    apply List.eq_nil_iff_forall_not_mem.mpr
    intro written hwritten
    obtain ⟨first, rest, hlater⟩ := List.append_of_mem hother
    have hissuedLater : session.Issued (before ++ item :: first) other := by
      rw [Session.Issued, htrace, hlater]
      exact ⟨rest, by simp⟩
    have hlate := (session_ordered h hsession hissuedLater).1.untouched
      ((exec_executed other.executed).workerStep hwritten)
    rw [hlate item (by simp)] at hchange
    cases hchange
  have hpending : workerChanges session.pending =
      workerChanges item.changes := by
    have hbefore : workerChanges (written before) = [] := by
      apply List.eq_nil_iff_forall_not_mem.mpr
      intro other hother
      obtain ⟨ran, hran, hmem⟩ := mem_written_workers hother
      rw [huntouched ran hran] at hmem
      cases hmem
    have hlater : workerChanges (written later) = [] := by
      apply List.eq_nil_iff_forall_not_mem.mpr
      intro other hother
      obtain ⟨ran, hran, hmem⟩ := mem_written_workers hother
      rw [honly ran hran] at hmem
      cases hmem
    rw [Session.pending, htrace, written_append, workerChanges_append,
      hbefore, ← List.singleton_append, written_append,
      workerChanges_append, hlater]
    simp [written]
  refine ⟨before, hissued, hordered, hchange, hstep, hviewWorkers, hbase.symm,
    ?_⟩
  rw [Db.apply_workers, hpending]
  exact server.db.workers.get?_applyChanges_of_mem
    (fun other hother row hafter =>
      (hexecuted.workerStep hother).reads.key_eq row hafter)
    hexecuted.workerKeys hchange

/-- What a session commits under a key it wrote over the committed row. -/
theorem registration_cases (h : (pgServer rows).Reachable server)
    (hsession : server.sessions[index]? = some session)
    (hrunning : session.stage.isRunning = true) (key : String × String) :
    ((∀ item ∈ session.trace, ∀ change ∈ workerChanges item.changes,
        change.key ≠ key) ∧
      (server.db.apply session.pending).workers.get? key =
        server.db.workers.get? key) ∨
      ∃ before item change, change.key = key ∧
        RegistrationWrite session server.db before item change := by
  rcases written_workers_cases server.db session.trace key with
    hnone | ⟨item, hitem, change, hchange, rfl⟩
  · exact Or.inl hnone
  · obtain ⟨before, hwrite⟩ :=
      registration_write h hsession hrunning hitem hchange
    exact Or.inr ⟨before, item, change, rfl, hwrite⟩

theorem RegistrationWrite.before_eq {db : Db} {before : List (Ran sql)}
    {item : Ran sql} {change : WorkerChange}
    (h : RegistrationWrite session db before item change) :
    item.view.workers.get? change.key = db.workers.get? change.key := by
  rw [h.view_eq, h.base_eq]

/-- Nobody inserts a registration without the advisory lock of its name. -/
theorem absent_guarded (worker queue : String) :
    Guarded rowLocks (program rows) .empty
      (fun db => db.workers.get? (worker, queue) = none)
      (fun lock => lock = (.advisory worker queue, .update)) := by
  intro server index session value h hsession hstage hnone hsome
  have hrunning : session.stage.isRunning = true := by rw [hstage]; rfl
  have hclash : rowLocks.clash (.advisory worker queue, .update)
      (.advisory worker queue, .update) = true := by
    simp [LockModel.clash, rowLocks, LockMode.conflicts]
  rcases registration_cases h hsession hrunning (worker, queue) with
    ⟨_, hsame⟩ | ⟨before, item, change, hkey, hwrite⟩
  · exact absurd (hsame.trans hnone) hsome
  · have hread := hwrite.before_eq
    have hafter := hwrite.after_eq
    rw [hkey] at hread hafter
    rw [hnone] at hread
    refine ⟨(.advisory worker queue, .update), ?_, ?_⟩
    · have hstep := hwrite.step
      have hordered := hwrite.ordered
      have hissued := hwrite.issued
      clear hwrite
      obtain ⟨stmt, env, base, view, result, changes, hexec⟩ := item
      cases hstep with
      | register =>
          obtain ⟨rfl, rfl⟩ := Prod.mk.inj hkey
          exact hissued.subset_held
            (by
              rw [LockModel.held, List.flatMap_append]
              exact List.mem_append_left _ hordered.2.1)
      | heartbeat hrow _ | release hrow =>
          obtain ⟨rfl, rfl⟩ := Prod.mk.inj hkey
          rw [hread] at hrow
          cases hrow
      | admin =>
          obtain ⟨rfl, rfl⟩ := Prod.mk.inj hkey
          apply hissued.subset_held
          rw [LockModel.held, List.flatMap_append]
          apply List.mem_append_right
          rw [List.flatMap_singleton]
          exact List.mem_append_left _ List.mem_cons_self
      | prune _ _ _ _ => exact absurd hafter hsome
    · rintro guarded rfl
      exact hclash

/-- What a transaction saw of a registration is what is still committed. -/
theorem Saw.still (h : (pgServer rows).Reachable server)
    (hsession : server.sessions[index]? = some session)
    (hrunning : session.stage.isRunning = true) {before : List (Ran sql)}
    {item : Ran sql} (hissued : session.Issued before item)
    {worker queue : String} {found : Timestamp → Option WorkerRow → Prop}
    (hsaw : Saw before worker queue found) :
    ∃ early seen, session.Issued early seen ∧ WorkersUntouched early ∧
      seen.base.workers.get? (worker, queue) =
        server.db.workers.get? (worker, queue) ∧
      found seen.env.now (server.db.workers.get? (worker, queue)) ∧
      ((server.db.workers.get? (worker, queue)).isSome = true →
        (Resource.registration worker queue, LockMode.update) ∈
          rowLocks.held (early ++ [seen])) := by
  obtain ⟨early, seen, hwithin, hearly, hfound, hlocked, hadvisory⟩ := hsaw
  have hseen : session.Issued early seen :=
    hwithin.trans ((List.prefix_append _ _).trans hissued)
  have hsame : seen.base.workers.get? (worker, queue) =
      server.db.workers.get? (worker, queue) := by
    cases hstored : (seen.base.workers.get? (worker, queue)).isSome with
    | true =>
        exact ((registration_guarded (worker, queue) _).stable h hsession
          hrunning hseen (hlocked hstored) ⟨rfl, by simp⟩ rfl).symm
    | false =>
        have hnone : seen.base.workers.get? (worker, queue) = none := by
          simpa using hstored
        rw [hnone]
        exact ((absent_guarded worker queue).stable h hsession hrunning hseen
          (hadvisory hstored) rfl hnone).symm
  rw [hsame] at hfound hlocked
  exact ⟨early, seen, hseen, hearly, hsame, hfound, hlocked⟩

/-- The registration carries the token. -/
def Carries (db : Db) (worker queue token : String) : Prop :=
  ∃ row, db.workers.get? (worker, queue) = some row ∧
    row.leaseToken = some token

theorem clash_of_update {worker queue : String}
    {guarded : Resource × LockMode}
    (h : guarded.1 = .registration worker queue) :
    rowLocks.clash (.registration worker queue, .update) guarded = true := by
  obtain ⟨resource, mode⟩ := guarded
  dsimp only at h
  subst h
  cases mode <;> simp [LockModel.clash, rowLocks, LockMode.conflicts]

/-- Whoever takes a token off its registration has locked the row against
everybody. -/
theorem carries_guarded (worker queue token : String) :
    Guarded rowLocks (program rows) .empty
      (fun db => Carries db worker queue token)
      (fun lock => lock.1 = .registration worker queue) := by
  intro server index session value h hsession hstage hcarries hlost
  have hrunning : session.stage.isRunning = true := by rw [hstage]; rfl
  obtain ⟨row, hrow, htoken⟩ := hcarries
  have hstored : (server.db.workers.get? (worker, queue)).isSome = true := by
    rw [hrow]
    rfl
  refine ⟨(.registration worker queue, .update), ?_,
    fun guarded hguarded => clash_of_update hguarded⟩
  rcases registration_cases h hsession hrunning (worker, queue) with
    ⟨_, hsame⟩ | ⟨before, item, change, hkey, hwrite⟩
  · exact absurd ⟨row, hsame.trans hrow, htoken⟩ hlost
  · have hread := hwrite.before_eq
    have hafter := hwrite.after_eq
    rw [hkey] at hread hafter
    rw [hrow] at hread
    have hstep := hwrite.step
    have hordered := hwrite.ordered
    have hissued := hwrite.issued
    have hmem := hwrite.mem
    clear hwrite
    obtain ⟨stmt, env, base, view, result, changes, hexec⟩ := item
    cases hstep with
    | register =>
        obtain ⟨rfl, rfl⟩ := Prod.mk.inj hkey
        obtain ⟨_, _, _, _, hsaw⟩ := hordered
        obtain ⟨early, seen, hseen, _, _, _, hlock⟩ :=
          hsaw.still h hsession hrunning hissued
        exact hseen.subset_held (hlock hstored)
    | heartbeat hold _ =>
        obtain ⟨rfl, rfl⟩ := Prod.mk.inj hkey
        rw [hread] at hold
        obtain rfl := Option.some.inj hold
        exact absurd ⟨_, hafter, htoken⟩ hlost
    | release _ =>
        obtain ⟨rfl, rfl⟩ := Prod.mk.inj hkey
        obtain ⟨_, _, _, hsaw⟩ := hordered
        obtain ⟨early, seen, hseen, _, _, _, hlock⟩ :=
          hsaw.still h hsession hrunning hissued
        exact hseen.subset_held (hlock hstored)
    | admin =>
        obtain ⟨rfl, rfl⟩ := Prod.mk.inj hkey
        rw [hread] at hafter
        exact absurd ⟨_, hafter, htoken⟩ hlost
    | prune _ _ _ _ =>
        dsimp only at hkey
        apply hissued.subset_held
        rw [LockModel.held, List.flatMap_append]
        apply List.mem_append_right
        rw [List.flatMap_singleton]
        apply List.mem_append_right
        refine List.mem_flatMap.mpr ⟨_, mem_workerChanges.mp hmem, ?_⟩
        simp [changeLocks, hkey]

end

end ApalisPostgres
