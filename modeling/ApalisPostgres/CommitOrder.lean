/-
The order of the commits.  A part of the database that every statement locks
before it writes it changes as if the committed transactions had run one after
the other: each write saw what the commits before it had left there.
-/
import ApalisPostgres.SerialRuns

namespace RowStore

variable {Stmt : Type} {Result : Stmt → Type}
variable {Db Env Effect Fault E α Op Resource Mode Key V : Type}
variable {M : StatementModel Stmt Result Db Env Effect Fault E}
variable [DecidableEq Resource] {L : LockModel M Resource Mode}
variable {body : Op → Program Stmt Result E α} {initial : Db}

omit [DecidableEq Resource] in
theorem Program.IssuesAfter.mono {Q : List (Ran M) → Stmt → Prop}
    {post weaker : List (Ran M) → α → Prop} {rest : Program Stmt Result E α}
    {trace : List (Ran M)} (h : rest.IssuesAfter Q post trace)
    (hpost : ∀ trace value, post trace value → weaker trace value) :
    rest.IssuesAfter Q weaker trace := by
  induction rest generalizing trace with
  | commit value => exact hpost trace value h
  | rollback error => trivial
  | statement label stmt next ih =>
      refine ⟨h.1, ?_⟩
      intro item hstmt hview
      exact ih _ (h.2 item hstmt hview)

omit [DecidableEq Resource] in
/-- A first part whose statements are all allowed leaves the rest to show. -/
theorem Program.Only.issuesAfter_bind {β : Type} {P : Stmt → Prop}
    {Q : List (Ran M) → Stmt → Prop} {post : List (Ran M) → β → Prop}
    {first : Program Stmt Result E α} {f : α → Program Stmt Result E β}
    (h : first.Only P) (hQ : ∀ trace stmt, P stmt → Q trace stmt)
    (hf : ∀ trace value, (f value).IssuesAfter Q post trace)
    (trace : List (Ran M)) : (first >>= f).IssuesAfter Q post trace := by
  apply Program.issuesAfter_bind
  apply (h.issuesAfter hQ trace).mono
  intro trace value _
  exact hf trace value

/-- What a body leaves at its commit holds of every session that committed. -/
theorem Server.reachable_post {Q : List (Ran M) → Stmt → Prop}
    {post : List (Ran M) → α → Prop} {server : Server M Op α}
    (h : (Server.machine L body initial).Reachable server) {index : Nat}
    {session : Session M Op α}
    (hsession : server.sessions[index]? = some session)
    (hbody : (body session.op).IssuesAfter Q post []) {value : α}
    (hcommitted : session.stage = .committed value) :
    post session.trace value := by
  have hboth : session.Disciplined Q post ∧
      ∀ value, session.stage = .committed value → post session.trace value := by
    refine Server.reachable_sessions (fun session : Session M Op α =>
      (body session.op).IssuesAfter Q post [] → session.Disciplined Q post ∧
        ∀ value, session.stage = .committed value → post session.trace value)
      ?_ ?_ h hsession hbody
    · intro op hbody
      refine ⟨⟨?_, ?_⟩, fun value hcommitted => by cases hcommitted⟩
      · intro before item hissued
        have hnil := hissued.length_le
        simp [Session.start] at hnil
      · intro rest hrunning
        obtain rfl := Stage.running.inj hrunning
        exact hbody
    · intro db session next hadvances hsession hbody
      rw [hadvances.op_eq] at hbody
      have hdisciplined := (hsession hbody).1
      refine ⟨hdisciplined.advance hadvances, ?_⟩
      intro value hcommitted
      cases hadvances with
      | committed hstage =>
          obtain rfl := Stage.committed.inj hcommitted
          exact hdisciplined.rest _ hstage
      | ran _ _ _ _ | faulted _ _ | refused _ | aborted _ _ => cases hcommitted
  exact hboth.2 value hcommitted

/-- The parts of a database, each of which is written under a lock of its own
and changes by what is written to it alone. -/
structure Cells (L : LockModel M Resource Mode) (Key V : Type) where
  read : Key → Db → V
  writes : Key → Ran M → Prop
  guards : Key → Resource × Mode → Prop
  clash : ∀ key first second, guards key first → guards key second →
    L.clash first second = true
  guarded : ∀ key item, writes key item →
    ∃ lock ∈ L.acquires item, guards key lock
  kept : ∀ key (item : Ran M) db, ¬ writes key item →
    read key (M.apply db item.changes) = read key db
  congr : ∀ key (item : Ran M) first second,
    read key first = read key second →
    read key (M.apply first item.changes) =
      read key (M.apply second item.changes)

namespace Cells

variable (C : Cells L Key V) {db : Db} {trace : List (Ran M)}

/-- Each statement found the parts it wrote as the statements before it had
left them. -/
def Serial (db : Db) (trace : List (Ran M)) : Prop :=
  ∀ before item after key, trace = before ++ item :: after →
    C.writes key item →
    C.read key item.view = C.read key (M.apply db (written before))

theorem written_concat (trace : List (Ran M)) (item : Ran M) :
    written (trace ++ [item]) = written trace ++ item.changes := by
  simp [written]

theorem apply_concat (db : Db) (trace : List (Ran M)) (item : Ran M) :
    M.apply db (written (trace ++ [item])) =
      M.apply (M.apply db (written trace)) item.changes := by
  simp [written, M.apply_append]

theorem apply_written_append (db : Db) (first second : List (Ran M)) :
    M.apply db (written (first ++ second)) =
      M.apply (M.apply db (written first)) (written second) := by
  simp [written, M.apply_append]

variable {C}

/-- What no statement writes stays as it was. -/
theorem read_written {key : Key} (h : ∀ item ∈ trace, ¬ C.writes key item) :
    C.read key (M.apply db (written trace)) = C.read key db := by
  induction trace using List.reverseRecOn with
  | nil => rw [written, List.flatMap_nil, M.apply_nil]
  | append_singleton trace item ih =>
      rw [apply_concat, C.kept key item _ (h item (by simp))]
      exact ih fun other hother => h other (by simp [hother])

theorem read_written_congr {key : Key} {other : Db}
    (h : C.read key db = C.read key other) :
    C.read key (M.apply db (written trace)) =
      C.read key (M.apply other (written trace)) := by
  induction trace using List.reverseRecOn with
  | nil => simpa [written, M.apply_nil] using h
  | append_singleton trace item ih =>
      rw [apply_concat, apply_concat]
      exact C.congr key item _ _ ih

theorem Serial.nil : C.Serial db [] := by
  intro before item after key htrace
  simp at htrace

theorem Serial.left {second : List (Ran M)} (h : C.Serial db (trace ++ second)) :
    C.Serial db trace := by
  intro before item after key hsplit
  exact h before item (after ++ second) key (by simp [hsplit])

theorem Serial.right {second : List (Ran M)}
    (h : C.Serial db (trace ++ second)) :
    C.Serial (M.apply db (written trace)) second := by
  intro before item after key hsplit hwrites
  rw [← apply_written_append]
  exact h (trace ++ before) item after key (by simp [hsplit]) hwrites

theorem Serial.concat {item : Ran M} (h : C.Serial db trace)
    (hitem : item.view = M.apply db (written trace)) :
    C.Serial db (trace ++ [item]) := by
  intro before other after key htrace hwrites
  rcases List.eq_nil_or_concat after with rfl | ⟨later, last, rfl⟩
  · obtain ⟨rfl, hlast⟩ := List.append_inj' htrace rfl
    obtain rfl := List.singleton_inj.mp hlast
    rw [hitem]
  · rw [List.concat_eq_append, ← List.cons_append, ← List.append_assoc]
      at htrace
    obtain ⟨hearlier, _⟩ := List.append_inj' htrace rfl
    exact h before other later key hearlier hwrites

/-- A trace over what another one left continues it. -/
theorem Serial.append {second : List (Ran M)} (h : C.Serial db trace)
    (hsecond : C.Serial (M.apply db (written trace)) second) :
    C.Serial db (trace ++ second) := by
  intro before item after key htrace hwrites
  rcases List.append_eq_append_iff.mp htrace with
    ⟨middle, rfl, hsplit⟩ | ⟨middle, rfl, hsplit⟩
  · rw [hsecond middle item after key hsplit hwrites, apply_written_append]
  · cases middle with
    | nil =>
        have hfirst := hsecond [] item after key hsplit.symm hwrites
        simpa [written, M.apply_nil] using hfirst
    | cons head rest =>
        obtain ⟨rfl, rfl⟩ := List.cons.inj hsplit
        exact h before item rest key rfl hwrites

/-- A trace does not see a change of the parts it does not write. -/
theorem Serial.rebase {other : Db} (h : C.Serial db trace)
    (hsame : ∀ item ∈ trace, ∀ key, C.writes key item →
      C.read key other = C.read key db) : C.Serial other trace := by
  intro before item after key htrace hwrites
  rw [h before item after key htrace hwrites]
  exact read_written_congr
    (hsame item (by simp [htrace]) key hwrites).symm

/-- The rule for one part: what holds of its first value, passes every
statement that does not write it, and is kept by every write over the value it
found, holds of its last value. -/
theorem Serial.rule {key : Key} (h : C.Serial db trace)
    (P : List (Ran M) → V → Prop) (hstart : P [] (C.read key db))
    (hkept : ∀ before item value, item ∈ trace → ¬ C.writes key item →
      P before value → P (before ++ [item]) value)
    (hwrote : ∀ before item, item ∈ trace → C.writes key item →
      P before (C.read key item.view) →
      P (before ++ [item]) (C.read key (M.apply item.view item.changes))) :
    P trace (C.read key (M.apply db (written trace))) := by
  induction trace using List.reverseRecOn with
  | nil => simpa [written, M.apply_nil] using hstart
  | append_singleton trace item ih =>
      have hbefore := ih h.left
        (fun before other value hother =>
          hkept before other value (by simp [hother]))
        (fun before other hother => hwrote before other (by simp [hother]))
      rw [apply_concat]
      by_cases hwrites : C.writes key item
      · have hview := h trace item [] key rfl hwrites
        rw [← C.congr key item _ _ hview]
        apply hwrote trace item (by simp) hwrites
        rw [hview]
        exact hbefore
      · rw [C.kept key item _ hwrites]
        exact hkept trace item _ (by simp) hwrites hbefore

/-- While a session runs, nobody else commits a write to what it wrote. -/
theorem reachable_serial (C : Cells L Key V) {server : Server M Op α}
    (h : (Server.machine L body initial).Reachable server) :
    ∀ (index : Nat) (session : Session M Op α),
      server.sessions[index]? = some session →
      session.stage.isRunning = true → C.Serial server.db session.trace := by
  apply h.invariant_of_reachable fun server : Server M Op α =>
    ∀ (index : Nat) (session : Session M Op α),
      server.sessions[index]? = some session →
      session.stage.isRunning = true → C.Serial server.db session.trace
  · rintro start rfl index session hsession
    simp at hsession
  · intro state after event hreachable hstate hevent index session hsession
      hrunning
    have hmoves := Server.step_cases hevent
    rcases hmoves.db_cases with hsame |
      ⟨turn, writer, value, _, hwriter, hstage, hdb, hturn, hothers⟩
    · rw [hsame]
      rcases hmoves.sessions hsession with
        hold | ⟨_, op, rfl⟩ | ⟨old, hold, hadvances⟩
      · exact hstate index session hold hrunning
      · exact .nil
      · obtain ⟨item, _, hview, htrace⟩ := hadvances.ran_of_running hrunning
        rw [htrace]
        exact (hstate index old hold hadvances.running).concat hview
    · by_cases heq : index = turn
      · subst heq
        rw [hturn] at hsession
        obtain rfl := Option.some.inj hsession
        cases hrunning
      · rw [hothers index heq] at hsession
        have hwriting : writer.stage.isRunning = true := by rw [hstage]; rfl
        rw [hdb]
        apply (hstate index session hsession hrunning).rebase
        intro item hitem key hwrites
        apply read_written
        intro other hother hwrote
        obtain ⟨lock, hlock, hguards⟩ := C.guarded key item hwrites
        obtain ⟨held, hheld, hguarded⟩ := C.guarded key other hwrote
        have hexclusive := Server.reachable_exclusive hreachable index turn
          session writer heq hsession hwriter lock
          (by
            rw [Session.locks_of_running L hrunning]
            exact List.mem_flatMap.mpr ⟨item, hitem, hlock⟩) held
          (by
            rw [Session.locks_of_running L hwriting]
            exact List.mem_flatMap.mpr ⟨other, hother, hheld⟩)
        rw [C.clash key lock held hguards hguarded] at hexclusive
        cases hexclusive

end Cells

/-- The statements of the named sessions, one session after the other. -/
def Server.statements (server : Server M Op α) (order : List Nat) :
    List (Ran M) :=
  order.flatMap fun index => server.sessions[index]?.elim [] Session.trace

theorem Server.mem_statements {server : Server M Op α} {order : List Nat}
    {item : Ran M} (h : item ∈ server.statements order) :
    ∃ index ∈ order, ∃ session, server.sessions[index]? = some session ∧
      item ∈ session.trace := by
  obtain ⟨index, hindex, hitem⟩ := List.mem_flatMap.mp h
  cases hsession : server.sessions[index]? with
  | none => simp [hsession] at hitem
  | some session =>
      rw [hsession] at hitem
      exact ⟨index, hindex, session, hsession, hitem⟩

/-- The committed sessions, in the order of their commits. -/
structure Server.CommitOrder (initial : Db) (server : Server M Op α)
    (order : List Nat) : Prop where
  once : order.Nodup
  committed : ∀ index, index ∈ order ↔
    ∃ session, server.sessions[index]? = some session ∧
      session.stage.isCommitted = true
  db_eq : server.db = M.apply initial (written (server.statements order))

theorem Server.statements_congr {server after : Server M Op α}
    {order : List Nat}
    (h : ∀ index ∈ order, after.sessions[index]? = server.sessions[index]?) :
    after.statements order = server.statements order := by
  apply List.flatMap_congr
  intro index hindex
  rw [h index hindex]

section

variable {server after : Server M Op α} {event : ServerEvent Op Env E}
  {order : List Nat}

/-- The session committed what it wrote, and nothing else happened. -/
structure Server.CommitsAt (server after : Server M Op α) (index : Nat)
    (writer : Session M Op α) (value : α) : Prop where
  found : server.sessions[index]? = some writer
  stage : writer.stage = .running (.commit value)
  db : after.db = M.apply server.db writer.pending
  left : after.sessions[index]? =
    some { writer with stage := .committed value }
  others : ∀ other ≠ index, after.sessions[other]? = server.sessions[other]?

/-- An event commits nothing, or one session commits what it wrote. -/
theorem Server.Moves.commit_cases (h : server.Moves L body event after) :
    (after.db = server.db ∧ ∀ (index : Nat) (session : Session M Op α),
      after.sessions[index]? = some session →
      session.stage.isCommitted = true →
      server.sessions[index]? = some session) ∨
    ∃ index writer value, server.CommitsAt after index writer value := by
  by_cases hcommits : ∃ index writer value,
      server.CommitsAt after index writer value
  · exact Or.inr hcommits
  · left
    constructor
    · rcases h.db_cases with hsame |
        ⟨index, writer, value, _, hwriter, hstage, hdb, hturn, hothers⟩
      · exact hsame
      · exact absurd
          ⟨index, writer, value, hwriter, hstage, hdb, hturn, hothers⟩ hcommits
    · intro index session hsession hcommitted
      rcases h.newly_committed hsession hcommitted with hold |
        ⟨writer, value, hwriter, hstage, hdb, hturn, hothers⟩
      · exact hold
      · exact absurd
          ⟨index, writer, value, hwriter, hstage, hdb, hturn, hothers⟩ hcommits

/-- A session that committed stays as it is. -/
theorem Server.CommitOrder.kept (h : server.CommitOrder initial order)
    (hmoves : server.Moves L body event after) :
    ∀ index ∈ order, after.sessions[index]? = server.sessions[index]? := by
  intro index hindex
  obtain ⟨session, hsession, hcommitted⟩ := (h.committed index).mp hindex
  rw [hsession]
  apply hmoves.kept hsession
  cases hstage : session.stage <;> simp_all [Stage.isCommitted, Stage.isRunning]

/-- An event that commits nothing keeps the order. -/
theorem Server.CommitOrder.uncommitted (h : server.CommitOrder initial order)
    (hmoves : server.Moves L body event after) (hdb : after.db = server.db)
    (hnew : ∀ (index : Nat) (session : Session M Op α),
      after.sessions[index]? = some session →
      session.stage.isCommitted = true →
      server.sessions[index]? = some session) :
    after.CommitOrder initial order where
  once := h.once
  committed index := by
    rw [h.committed]
    constructor
    · rintro ⟨session, hsession, hcommitted⟩
      refine ⟨session, ?_, hcommitted⟩
      rw [h.kept hmoves index ((h.committed index).mpr
        ⟨session, hsession, hcommitted⟩)]
      exact hsession
    · rintro ⟨session, hsession, hcommitted⟩
      exact ⟨session, hnew index session hsession hcommitted, hcommitted⟩
  db_eq := by rw [hdb, Server.statements_congr (h.kept hmoves), h.db_eq]

/-- A commit comes last in the order. -/
theorem Server.CommitOrder.commits (h : server.CommitOrder initial order)
    (hmoves : server.Moves L body event after) {index : Nat}
    {writer : Session M Op α} {value : α}
    (hcommits : server.CommitsAt after index writer value) :
    after.CommitOrder initial (order ++ [index]) ∧
      after.statements (order ++ [index]) =
        server.statements order ++ writer.trace := by
  have hnew : index ∉ order := by
    intro hmem
    obtain ⟨old, hold, hcommitted⟩ := (h.committed index).mp hmem
    rw [hcommits.found] at hold
    obtain rfl := Option.some.inj hold
    rw [hcommits.stage] at hcommitted
    cases hcommitted
  have hstatements : after.statements (order ++ [index]) =
      server.statements order ++ writer.trace := by
    rw [← Server.statements_congr (h.kept hmoves)]
    simp [Server.statements, hcommits.left]
  refine ⟨⟨?_, ?_, ?_⟩, hstatements⟩
  · exact List.nodup_append.mpr ⟨h.once, List.nodup_singleton _, by
      rintro first hfirst second hsecond rfl
      rw [List.mem_singleton] at hsecond
      exact hnew (hsecond ▸ hfirst)⟩
  · intro other
    rw [List.mem_append, List.mem_singleton]
    by_cases heq : other = index
    · subst heq
      exact ⟨fun _ => ⟨_, hcommits.left, rfl⟩, fun _ => Or.inr rfl⟩
    · rw [hcommits.others other heq, h.committed]
      exact ⟨fun hold => hold.resolve_right heq, Or.inl⟩
  · rw [hstatements, Cells.apply_written_append, ← h.db_eq]
    exact hcommits.db

end

/-- Every run has an order of its commits in which each write to a guarded
part saw what the commits before it had left. -/
theorem Server.reachable_commitOrder {server : Server M Op α}
    (h : (Server.machine L body initial).Reachable server) :
    ∃ order, server.CommitOrder initial order ∧
      ∀ {Key V : Type} (C : Cells L Key V),
        C.Serial initial (server.statements order) := by
  apply h.invariant_of_reachable fun server : Server M Op α =>
    ∃ order, server.CommitOrder initial order ∧
      ∀ {Key V : Type} (C : Cells L Key V),
        C.Serial initial (server.statements order)
  · rintro start rfl
    refine ⟨[], ⟨List.nodup_nil, by simp, ?_⟩, fun C => .nil⟩
    simp [Server.statements, written, M.apply_nil]
  · rintro state after event hreachable ⟨order, horder, hserial⟩ hevent
    have hmoves := Server.step_cases hevent
    rcases hmoves.commit_cases with ⟨hdb, hnew⟩ |
      ⟨index, writer, value, hcommits⟩
    · refine ⟨order, horder.uncommitted hmoves hdb hnew, fun C => ?_⟩
      rw [Server.statements_congr (horder.kept hmoves)]
      exact hserial C
    · obtain ⟨hextended, hstatements⟩ := horder.commits hmoves hcommits
      refine ⟨order ++ [index], hextended, fun C => ?_⟩
      rw [hstatements]
      apply (hserial C).append
      rw [← horder.db_eq]
      exact C.reachable_serial hreachable index writer hcommits.found
        (by rw [hcommits.stage]; rfl)

end RowStore
