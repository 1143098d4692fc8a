/-
Waiting for completion.  A wait polls its ids until each has yielded an item:
a result once its row is terminal, or `TaskNotFound` once no poll has found it
for the whole grace.  Rows may appear, disappear and reappear, and polls may
fail, so what an item is owed to is a stretch of the poll history.
-/
import ApalisPostgres.TaskResults
import Mathlib.Data.List.Induction

namespace ApalisPostgres

open RowStore

section

variable {O Id : Type} (texts : TaskTexts Id) (codec : ResultCodec O)

/-- What a poll decides to yield for one id, by the row it found and the
absence recorded before it. -/
inductive PollDecision (present : String → Option TrackedTaskRow)
    (absent : Absences) (now grace : Nat) : String → WaitItem O Id → Prop
  | terminal {id row} : present id = some row → row.terminal = true →
      PollDecision present absent now grace id
        (taskResultFromRow texts codec row.toTaskResultRow)
  | missing {id first} : present id = none → absent id = some first →
      grace ≤ now - first →
      PollDecision present absent now grace id
        (.error (waitedTaskNotFound id))

/-- A triage sorts the ids it was given: each yields once or stays awaited,
and an absence recorded for an awaited id is old or of this very poll. -/
structure PollTriage.Sorts (triage : PollTriage O Id)
    (yields : List (String × WaitItem O Id)) (awaited : List String)
    (present : String → Option TrackedTaskRow) (absent : Absences)
    (now grace : Nat) : Prop where
  items : triage.items = yields.map Prod.snd
  once : (yields.map Prod.fst ++ triage.remaining).Perm awaited
  decided : ∀ entry ∈ yields,
    PollDecision texts codec present absent now grace entry.1 entry.2
  waited : ∀ id ∈ triage.remaining, ∀ first,
    triage.absentSince id = some first →
      present id = none ∧ (absent id = some first ∨ first = now)
  others : ∀ id, id ∉ awaited → triage.absentSince id = absent id

section

variable {texts codec} {triage : PollTriage O Id}
  {yields : List (String × WaitItem O Id)} {head : String}
  {rest : List String} {present shown : String → Option TrackedTaskRow}
  {absent cleared : Absences} {now grace : Nat}

theorem PollDecision.of_agree {id : String} {item : WaitItem O Id}
    (h : PollDecision texts codec shown cleared now grace id item)
    (hagree : shown id = present id ∧ cleared id = absent id) :
    PollDecision texts codec present absent now grace id item := by
  cases h with
  | terminal hrow hterminal =>
      exact .terminal (hagree.1.symm.trans hrow) hterminal
  | missing hnone hfirst hgrace =>
      exact .missing (hagree.1.symm.trans hnone)
        (hagree.2.symm.trans hfirst) hgrace

theorem PollTriage.Sorts.mem_awaited {awaited : List String}
    (h : triage.Sorts texts codec yields awaited present absent now grace)
    {id : String} (hid : id ∈ yields.map Prod.fst ++ triage.remaining) :
    id ∈ awaited :=
  h.once.subset hid

/-- The head of the awaited ids yields. -/
theorem PollTriage.Sorts.yield {item : WaitItem O Id}
    (h : triage.Sorts texts codec yields rest shown cleared now grace)
    (hhead : head ∉ rest)
    (hagree : ∀ id, id ≠ head →
      shown id = present id ∧ cleared id = absent id)
    (hdecided : PollDecision texts codec present absent now grace head item) :
    ({ triage with items := item :: triage.items } : PollTriage O Id).Sorts
      texts codec ((head, item) :: yields) (head :: rest) present absent now
      grace := by
  have hne : ∀ id ∈ yields.map Prod.fst ++ triage.remaining, id ≠ head :=
    fun id hid heq => hhead (heq ▸ h.mem_awaited hid)
  refine ⟨?_, ?_, ?_, ?_, ?_⟩
  · simp [h.items]
  · exact h.once.cons head
  · intro entry hentry
    rcases List.mem_cons.mp hentry with rfl | hentry
    · exact hdecided
    · exact (h.decided entry hentry).of_agree (hagree _ (hne _
        (List.mem_append_left _ (List.mem_map_of_mem hentry))))
  · intro id hid first hfirst
    have hsame := hagree id (hne id (List.mem_append_right _ hid))
    rw [← hsame.1, ← hsame.2]
    exact h.waited id hid first hfirst
  · intro id hid
    obtain ⟨hother, hlater⟩ := not_or.mp (mt List.mem_cons.mpr hid)
    exact (h.others id hlater).trans (hagree id hother).2

/-- The head of the awaited ids stays awaited. -/
theorem PollTriage.Sorts.wait
    (h : triage.Sorts texts codec yields rest shown cleared now grace)
    (hhead : head ∉ rest)
    (hagree : ∀ id, id ≠ head →
      shown id = present id ∧ cleared id = absent id)
    (habsent : ∀ first, cleared head = some first →
      present head = none ∧ (absent head = some first ∨ first = now)) :
    ({ triage with remaining := head :: triage.remaining } :
      PollTriage O Id).Sorts texts codec yields (head :: rest) present absent
        now grace := by
  have hne : ∀ id ∈ yields.map Prod.fst ++ triage.remaining, id ≠ head :=
    fun id hid heq => hhead (heq ▸ h.mem_awaited hid)
  refine ⟨h.items, ?_, ?_, ?_, ?_⟩
  · exact List.perm_middle.trans (h.once.cons head)
  · intro entry hentry
    exact (h.decided entry hentry).of_agree (hagree _ (hne _
      (List.mem_append_left _ (List.mem_map_of_mem hentry))))
  · intro id hid first hfirst
    rcases List.mem_cons.mp hid with rfl | hid
    · exact habsent first ((h.others id hhead).symm.trans hfirst)
    · have hsame := hagree id (hne id (List.mem_append_right _ hid))
      rw [← hsame.1, ← hsame.2]
      exact h.waited id hid first hfirst
  · intro id hid
    obtain ⟨hother, hlater⟩ := not_or.mp (mt List.mem_cons.mpr hid)
    exact (h.others id hlater).trans (hagree id hother).2

end

theorem triagePoll_sorts (now grace : Nat) (awaited : List String)
    (rows : List TrackedTaskRow) (absent : Absences)
    (hnodup : awaited.Nodup) :
    ∃ yields, (triagePoll texts codec now grace awaited rows absent).Sorts
      texts codec yields awaited
      (fun id => rows.find? fun row => row.id = id) absent now grace := by
  induction awaited generalizing rows absent with
  | nil =>
      exact ⟨[], rfl, .nil, by simp, by simp [triagePoll], fun _ _ => rfl⟩
  | cons head rest ih =>
      obtain ⟨hhead, hrest⟩ := List.nodup_cons.mp hnodup
      have hremove : ∀ id, id ≠ head → absent.remove head id = absent id :=
        fun id hne => if_neg hne
      have hinsert : ∀ id, id ≠ head → absent.insert head now id = absent id :=
        fun id hne => if_neg hne
      unfold triagePoll
      split
      · rename_i row hrow
        obtain ⟨yields, hsorts⟩ := ih (rows.filter fun other =>
          other.id ≠ head) (absent.remove head) hrest
        have hagree : ∀ id, id ≠ head →
            ((rows.filter fun other => other.id ≠ head).find? fun row =>
                row.id = id) = (rows.find? fun row => row.id = id) ∧
              absent.remove head id = absent id :=
          fun id hne => ⟨find?_filter_ne (Ne.symm hne), hremove id hne⟩
        dsimp only
        split
        · rename_i hterminal
          exact ⟨_, hsorts.yield hhead hagree (.terminal hrow hterminal)⟩
        · refine ⟨_, hsorts.wait hhead hagree ?_⟩
          intro first hfirst
          rw [Absences.remove, if_pos rfl] at hfirst
          cases hfirst
      · rename_i hnone
        split
        · rename_i firstAbsent hfirst
          split
          · rename_i hgrace
            obtain ⟨yields, hsorts⟩ := ih rows (absent.remove head) hrest
            exact ⟨_, hsorts.yield hhead
              (fun id hne => ⟨rfl, hremove id hne⟩)
              (.missing hnone hfirst hgrace)⟩
          · obtain ⟨yields, hsorts⟩ := ih rows absent hrest
            exact ⟨_, hsorts.wait hhead (fun _ _ => ⟨rfl, rfl⟩)
              fun first hold => ⟨hnone, Or.inl hold⟩⟩
        · obtain ⟨yields, hsorts⟩ := ih rows (absent.insert head now) hrest
          refine ⟨_, hsorts.wait hhead (fun id hne => ⟨rfl, hinsert id hne⟩)
            ?_⟩
          intro first hnow
          rw [Absences.insert, if_pos rfl] at hnow
          exact ⟨hnone, Or.inr (Option.some.inj hnow).symm⟩

end

/-- No row of the id was there to be found, if the poll read any. -/
def WaitPoll.Misses (poll : WaitPoll) (id : String) : Prop :=
  ∀ db, poll.read = .ok db → db.jobs.get? id = none

def WaitPoll.Failed (poll : WaitPoll) : Prop :=
  ∃ error, poll.read = .error error

/-- From a successful poll at `first` to the last poll, every successful poll
missed the id. -/
def AbsentFrom (polls : List WaitPoll) (first : Nat) (id : String) : Prop :=
  ∃ before start later db, polls = before ++ start :: later ∧
    start.now = first ∧ start.read = .ok db ∧
    ∀ poll ∈ start :: later, poll.Misses id

/-- Three failed polls in a row, the last of them with the error. -/
def ThreeFailures (polls : List WaitPoll) (error : Error) : Prop :=
  ∃ before first second third after,
    polls = before ++ first :: second :: third :: after ∧
    first.Failed ∧ second.Failed ∧ third.read = .error error

section

variable {O Id : Type} (texts : TaskTexts Id) (codec : ResultCodec O)

/-- What an item is owed to: a terminal row some poll read, or an absence that
lasted for the whole grace. -/
inductive Owed (polls : List WaitPoll) : String → WaitItem O Id → Prop
  | terminal {before poll after db id row} :
      polls = before ++ poll :: after → poll.read = .ok db →
      db.jobs.get? id = some row → terminal row = true →
      Owed polls id (taskResultFromRow texts codec row.taskResultRow)
  | missing {before poll after db id first} :
      polls = before ++ poll :: after → poll.read = .ok db →
      AbsentFrom (before ++ [poll]) first id →
      first + initialBackoff ≤ poll.now →
      Owed polls id (.error (waitedTaskNotFound id))

/-- The account of a wait: what it yielded for which id, the ids it gave up
and the database error it gave them up for. -/
structure WaitLedger (O Id : Type) where
  yielded : List (String × WaitItem O Id)
  abandoned : List String
  failure : Option Error

/-- The account explains every item of a wait and every id it was given. -/
structure WaitLedger.Explains (ledger : WaitLedger O Id) (ids : List String)
    (polls : List WaitPoll) (items : List (WaitItem O Id)) (wait : Wait) :
    Prop where
  items : items =
    ledger.yielded.map Prod.snd ++ ledger.failure.toList.map Except.error
  once : (ledger.yielded.map Prod.fst ++ wait.remaining ++
    ledger.abandoned).Perm ids
  owed : ∀ entry ∈ ledger.yielded, Owed texts codec polls entry.1 entry.2
  kept : ledger.failure = none → ledger.abandoned = []
  failed : ∀ error, ledger.failure = some error →
    wait.remaining = [] ∧ ThreeFailures polls error

/-- What a wait remembers of its polls. -/
structure Wait.Remembers (wait : Wait) (polls : List WaitPoll) : Prop where
  absences : ∀ id ∈ wait.remaining, ∀ first,
    wait.absentSince id = some first → AbsentFrom polls first id
  streak : wait.remaining ≠ [] → ∃ before failing, polls = before ++ failing ∧
    failing.length = wait.errorStreak ∧ ∀ poll ∈ failing, poll.Failed
  backoff : initialBackoff ≤ wait.backoff ∧ wait.backoff ≤ maxBackoff

end

theorem AbsentFrom.concat {polls : List WaitPoll} {first : Nat} {id : String}
    {poll : WaitPoll} (h : AbsentFrom polls first id)
    (hmisses : poll.Misses id) : AbsentFrom (polls ++ [poll]) first id := by
  obtain ⟨before, start, later, db, rfl, hnow, hread, hall⟩ := h
  refine ⟨before, start, later ++ [poll], db, by simp, hnow, hread, ?_⟩
  intro other hother
  rw [← List.cons_append, List.mem_append] at hother
  rcases hother with hother | hother
  · exact hall other hother
  · cases List.mem_singleton.mp hother
    exact hmisses

theorem AbsentFrom.of_poll (polls : List WaitPoll) {id : String}
    {poll : WaitPoll} {db : Db} (hread : poll.read = .ok db)
    (hmisses : poll.Misses id) :
    AbsentFrom (polls ++ [poll]) poll.now id := by
  refine ⟨polls, poll, [], db, rfl, rfl, hread, ?_⟩
  intro other hother
  cases List.mem_singleton.mp hother
  exact hmisses

theorem ThreeFailures.concat {polls : List WaitPoll} {error : Error}
    (h : ThreeFailures polls error) (poll : WaitPoll) :
    ThreeFailures (polls ++ [poll]) error := by
  obtain ⟨before, first, second, third, after, rfl, hfailed⟩ := h
  exact ⟨before, first, second, third, after ++ [poll], by simp, hfailed⟩

/-- A third failure after two in a row. -/
theorem ThreeFailures.of_streak {before failing : List WaitPoll}
    {poll : WaitPoll} {error : Error} (hmany : 2 ≤ failing.length)
    (hfailing : ∀ other ∈ failing, other.Failed)
    (hread : poll.read = .error error) :
    ThreeFailures (before ++ failing ++ [poll]) error := by
  obtain ⟨earlier, second, rfl⟩ : ∃ earlier second,
      failing = earlier ++ [second] := by
    rcases List.eq_nil_or_concat' failing with rfl | ⟨earlier, second, heq⟩
    · simp at hmany
    · exact ⟨earlier, second, heq⟩
  obtain ⟨earliest, first, rfl⟩ : ∃ earliest first,
      earlier = earliest ++ [first] := by
    rcases List.eq_nil_or_concat' earlier with rfl | ⟨earliest, first, heq⟩
    · simp at hmany
    · exact ⟨earliest, first, heq⟩
  exact ⟨before ++ earliest, first, second, poll, [], by simp,
    hfailing first (by simp), hfailing second (by simp), hread⟩

theorem initialBackoff_bounds :
    initialBackoff ≤ initialBackoff ∧ initialBackoff ≤ maxBackoff := by
  decide

theorem nextBackoff_bounds {backoff : Duration}
    (h : initialBackoff ≤ backoff ∧ backoff ≤ maxBackoff) :
    initialBackoff ≤ nextBackoff backoff maxBackoff ∧
      nextBackoff backoff maxBackoff ≤ maxBackoff := by
  obtain ⟨hlow, hhigh⟩ := h
  refine ⟨le_min ?_ (hlow.trans hhigh), min_le_right _ _⟩
  exact hlow.trans (Nat.le_mul_of_pos_right backoff Nat.two_pos)

section

variable {O Id : Type} {texts : TaskTexts Id} {codec : ResultCodec O}

theorem Owed.concat {polls : List WaitPoll} {id : String}
    {item : WaitItem O Id} (h : Owed texts codec polls id item)
    (poll : WaitPoll) : Owed texts codec (polls ++ [poll]) id item := by
  cases h with
  | terminal hpolls hread hget hterminal =>
      exact .terminal (by rw [hpolls, List.append_assoc, List.cons_append])
        hread hget hterminal
  | missing hpolls hread habsent hgrace =>
      exact .missing (by rw [hpolls, List.append_assoc, List.cons_append])
        hread habsent hgrace

section

variable {ids : List String} {polls : List WaitPoll}
  {items : List (WaitItem O Id)} {wait : Wait} {ledger : WaitLedger O Id}

/-- A poll that decides nothing leaves the account as it was. -/
theorem WaitLedger.Explains.concat
    (h : ledger.Explains texts codec ids polls items wait)
    (poll : WaitPoll) {next : Wait}
    (hnext : next.remaining = wait.remaining) :
    ledger.Explains texts codec ids (polls ++ [poll]) items next where
  items := h.items
  once := hnext ▸ h.once
  owed entry hentry := (h.owed entry hentry).concat poll
  kept := h.kept
  failed error herror :=
    ⟨hnext.trans (h.failed error herror).1,
      (h.failed error herror).2.concat poll⟩

theorem WaitLedger.Explains.failure_none
    (h : ledger.Explains texts codec ids polls items wait)
    (hawaits : wait.remaining ≠ []) : ledger.failure = none := by
  cases hfailure : ledger.failure with
  | none => rfl
  | some error => exact absurd (h.failed error hfailure).1 hawaits

/-- A failed poll that is tolerated. -/
theorem Wait.Remembers.tolerate (h : wait.Remembers polls) {poll : WaitPoll}
    (hawaits : wait.remaining ≠ []) {error : Error}
    (hread : poll.read = .error error) :
    ({ wait with
      backoff := nextBackoff wait.backoff maxBackoff
      errorStreak := wait.errorStreak + 1 } : Wait).Remembers
        (polls ++ [poll]) := by
  have hmisses : ∀ id, poll.Misses id := by
    intro id db hok
    rw [hread] at hok
    cases hok
  refine ⟨?_, ?_, nextBackoff_bounds h.backoff⟩
  · intro id hid first hfirst
    exact (h.absences id hid first hfirst).concat (hmisses id)
  · intro _
    obtain ⟨before, failing, rfl, hlength, hfailing⟩ := h.streak hawaits
    refine ⟨before, failing ++ [poll], by simp, by simp [hlength], ?_⟩
    intro other hother
    rcases List.mem_append.mp hother with hother | hother
    · exact hfailing other hother
    · cases List.mem_singleton.mp hother
      exact ⟨error, hread⟩

/-- A failed poll too many: the ids still awaited are given up. -/
theorem WaitLedger.Explains.give_up
    (h : ledger.Explains texts codec ids polls items wait)
    (hremembers : wait.Remembers polls) {poll : WaitPoll} {error : Error}
    (hawaits : wait.remaining ≠ []) (hread : poll.read = .error error)
    (hexhausted : dbErrorsExhausted wait.errorStreak
      maxConsecutiveDbErrors = true) :
    (WaitLedger.mk ledger.yielded wait.remaining (some error)).Explains texts
      codec ids (polls ++ [poll]) (items ++ [.error error])
      ⟨[], initialBackoff, 0, wait.absentSince⟩ := by
  have hnone := h.failure_none hawaits
  refine ⟨?_, ?_, ?_, ?_, ?_⟩
  · simp [h.items, hnone]
  · simpa [h.kept hnone] using h.once
  · intro entry hentry
    exact (h.owed entry hentry).concat poll
  · intro hfailure
    cases hfailure
  · intro other hother
    cases hother
    obtain ⟨before, failing, rfl, hlength, hfailing⟩ :=
      hremembers.streak hawaits
    refine ⟨rfl, .of_streak ?_ hfailing hread⟩
    have hmany : 3 ≤ wait.errorStreak + 1 := of_decide_eq_true hexhausted
    omega

/-- What a successful poll decided is owed to the polls so far. -/
theorem PollDecision.owed (hremembers : wait.Remembers polls)
    {poll : WaitPoll} {db : Db} (hread : poll.read = .ok db) {id : String}
    {item : WaitItem O Id} (hid : id ∈ wait.remaining)
    (h : PollDecision texts codec (fun id =>
      (trackedTaskRows db wait.remaining).find? fun row => row.id = id)
      wait.absentSince poll.now initialBackoff id item) :
    Owed texts codec (polls ++ [poll]) id item := by
  cases h with
  | terminal hrow hterminal =>
      rw [find?_trackedTaskRows db hid, Option.map_eq_some_iff] at hrow
      obtain ⟨stored, hget, rfl⟩ := hrow
      have hstored : ApalisPostgres.terminal stored = true := hterminal
      have hsame : stored.tracked.toTaskResultRow = stored.taskResultRow := by
        simp [JobRow.tracked, TrackedTaskRow.toTaskResultRow,
          JobRow.taskResultRow, hstored]
      rw [hsame]
      exact .terminal rfl hread hget hstored
  | missing hnone hfirst hgrace =>
      rw [find?_trackedTaskRows db hid, Option.map_eq_none_iff] at hnone
      have hmisses : poll.Misses id := by
        intro other hother
        rw [hread] at hother
        cases hother
        exact hnone
      refine .missing rfl hread
        ((hremembers.absences id hid _ hfirst).concat hmisses) ?_
      have hpositive : 0 < initialBackoff := by decide
      have hlate := Nat.lt_of_sub_pos (hpositive.trans_le hgrace)
      exact Nat.add_comm _ _ ▸ Nat.add_le_of_le_sub hlate.le hgrace

/-- A successful poll: what its triage yields is added to the account. -/
theorem WaitLedger.Explains.triage
    (h : ledger.Explains texts codec ids polls items wait)
    (hremembers : wait.Remembers polls) {poll : WaitPoll} {db : Db}
    (hawaits : wait.remaining ≠ []) (hread : poll.read = .ok db)
    {triage : PollTriage O Id} {yields : List (String × WaitItem O Id)}
    (hsorts : triage.Sorts texts codec yields wait.remaining (fun id =>
      (trackedTaskRows db wait.remaining).find? fun row => row.id = id)
      wait.absentSince poll.now initialBackoff) {next : Wait}
    (hnext : next.remaining = triage.remaining) :
    (WaitLedger.mk (ledger.yielded ++ yields) [] none).Explains texts codec
      ids (polls ++ [poll]) (items ++ triage.items) next := by
  have hnone := h.failure_none hawaits
  refine ⟨?_, ?_, ?_, fun _ => rfl, by simp⟩
  · simp [h.items, hnone, hsorts.items]
  · have honce := h.once
    rw [h.kept hnone, List.append_nil] at honce
    rw [hnext, List.append_nil, List.map_append, List.append_assoc]
    exact (hsorts.once.append_left _).trans honce
  · intro entry hentry
    rcases List.mem_append.mp hentry with hentry | hentry
    · exact (h.owed entry hentry).concat poll
    · have hid : entry.1 ∈ wait.remaining := hsorts.mem_awaited
        (List.mem_append_left _ (List.mem_map_of_mem hentry))
      exact (hsorts.decided entry hentry).owed hremembers hread hid

theorem Wait.Remembers.triage (hremembers : wait.Remembers polls)
    {poll : WaitPoll} {db : Db} (hread : poll.read = .ok db)
    {triage : PollTriage O Id} {yields : List (String × WaitItem O Id)}
    (hsorts : triage.Sorts texts codec yields wait.remaining (fun id =>
      (trackedTaskRows db wait.remaining).find? fun row => row.id = id)
      wait.absentSince poll.now initialBackoff) {backoff : Duration}
    (hbackoff : initialBackoff ≤ backoff ∧ backoff ≤ maxBackoff) :
    (Wait.mk triage.remaining backoff 0 triage.absentSince).Remembers
      (polls ++ [poll]) := by
  refine ⟨?_, fun _ => ⟨polls ++ [poll], [], by simp, rfl, by simp⟩, hbackoff⟩
  intro id hid first hfirst
  obtain ⟨hnone, hwhen⟩ := hsorts.waited id hid first hfirst
  have hawaited := hsorts.mem_awaited (List.mem_append_right _ hid)
  rw [find?_trackedTaskRows db hawaited, Option.map_eq_none_iff] at hnone
  have hmisses : poll.Misses id := by
    intro other hother
    rw [hread] at hother
    cases hother
    exact hnone
  rcases hwhen with hold | rfl
  · exact (hremembers.absences id hawaited first hold).concat hmisses
  · exact .of_poll polls hread hmisses

/-- One poll extends the account. -/
theorem WaitLedger.Explains.step
    (h : ledger.Explains texts codec ids polls items wait)
    (hremembers : wait.Remembers polls) (hnodup : ids.Nodup)
    {poll : WaitPoll} {new : List (WaitItem O Id)} {next : Wait}
    (hstep : waitStep texts codec wait poll = some (new, next)) :
    ∃ ledger : WaitLedger O Id,
      ledger.Explains texts codec ids (polls ++ [poll]) (items ++ new) next ∧
      next.Remembers (polls ++ [poll]) := by
  unfold waitStep at hstep
  split at hstep
  · cases hstep
  · rename_i hempty
    have hawaits : wait.remaining ≠ [] := by simpa using hempty
    split at hstep
    · rename_i error hread
      split at hstep
      · rename_i hexhausted
        cases hstep
        exact ⟨_, h.give_up hremembers hawaits hread hexhausted,
          by simp, by simp, initialBackoff_bounds⟩
      · cases hstep
        rw [List.append_nil]
        exact ⟨ledger, h.concat poll rfl,
          hremembers.tolerate hawaits hread⟩
    · rename_i db hread
      have hawaited : wait.remaining.Nodup := by
        have hall := (List.nodup_append.mp (h.once.nodup_iff.mpr hnodup)).1
        exact (List.nodup_append.mp hall).2.1
      obtain ⟨yields, hsorts⟩ := triagePoll_sorts texts codec poll.now
        initialBackoff wait.remaining (trackedTaskRows db wait.remaining)
        wait.absentSince hawaited
      dsimp only at hstep
      split at hstep
      · rename_i hitems
        cases hstep
        rw [← List.isEmpty_iff.mp hitems]
        exact ⟨_, h.triage hremembers hawaits hread hsorts rfl,
          hremembers.triage hread hsorts
            (nextBackoff_bounds hremembers.backoff)⟩
      · cases hstep
        exact ⟨_, h.triage hremembers hawaits hread hsorts rfl,
          hremembers.triage hread hsorts initialBackoff_bounds⟩

end

theorem waitStep_none {wait : Wait} {poll : WaitPoll} :
    waitStep texts codec wait poll = none ↔ wait.remaining = [] := by
  constructor
  · intro h
    unfold waitStep at h
    split at h
    · rename_i hempty
      exact List.isEmpty_iff.mp hempty
    · split at h
      · split at h <;> cases h
      · dsimp only at h
        split at h <;> cases h
  · intro hempty
    simp [waitStep, hempty]

/-- A run is extended at its end by one turn of the wait it left. -/
theorem waitRun_concat (wait : Wait) (polls : List WaitPoll)
    (poll : WaitPoll) :
    waitRun texts codec wait (polls ++ [poll]) =
      match waitStep texts codec (waitRun texts codec wait polls).2 poll with
      | none => waitRun texts codec wait polls
      | some (items, next) =>
          ((waitRun texts codec wait polls).1 ++ items, next) := by
  induction polls generalizing wait with
  | nil =>
      simp only [List.nil_append, waitRun]
      cases waitStep texts codec wait poll with
      | none => rfl
      | some turn => simp
  | cons head rest ih =>
      simp only [List.cons_append, waitRun]
      cases hstep : waitStep texts codec wait head with
      | none =>
          have hover : waitStep texts codec wait poll = none :=
            waitStep_none.mpr (waitStep_none.mp hstep)
          simp [hover]
      | some turn =>
          dsimp only
          rw [ih turn.2]
          cases waitStep texts codec
              (waitRun texts codec turn.2 rest).2 poll with
          | none => rfl
          | some later => simp

variable (texts codec)

/-- Every run has an account. -/
theorem waitForCompletion_explained (taskIds : List Id)
    (polls : List WaitPoll) :
    ∃ ledger : WaitLedger O Id,
      ledger.Explains texts codec (distinctIds (taskIds.map texts.toText))
        polls (waitForCompletion texts codec taskIds polls).1
        (waitForCompletion texts codec taskIds polls).2 ∧
      (waitForCompletion texts codec taskIds polls).2.Remembers polls := by
  induction polls using List.reverseRecOn with
  | nil =>
      refine ⟨⟨[], [], none⟩, ⟨rfl, ?_, by simp, fun _ => rfl, by simp⟩, ?_⟩
      · simp [waitForCompletion, waitRun, waitStart]
      · refine ⟨?_, fun _ => ⟨[], [], rfl, rfl, by simp⟩,
          initialBackoff_bounds⟩
        intro id _ first hfirst
        cases hfirst
  | append_singleton polls poll ih =>
      obtain ⟨ledger, hexplains, hremembers⟩ := ih
      rw [waitForCompletion, waitRun_concat]
      rw [waitForCompletion] at hexplains hremembers
      split
      · rename_i hstep
        have hover := waitStep_none.mp hstep
        refine ⟨ledger, hexplains.concat poll rfl, ?_⟩
        exact ⟨by simp [hover], fun hawaits => absurd hover hawaits,
          hremembers.backoff⟩
      · rename_i items next hstep
        exact hexplains.step hremembers (distinctIds_nodup _) hstep

/-- Every error of the conversion is one of the row it reads. -/
theorem taskResultFromRow_ne_taskNotFound (row : JobRow)
    (operation taskId queue hint : String) :
    taskResultFromRow texts codec row.taskResultRow ≠
      .error (.taskNotFound operation taskId queue hint) := by
  cases hvalue : row.lastResult with
  | none => simp [taskResultFromRow, JobRow.taskResultRow, hvalue, bind,
      Except.bind]
  | some value =>
      simp only [taskResultFromRow, JobRow.taskResultRow, hvalue, bind,
        Except.bind, pure, Except.pure, Option.elim, Except.mapError,
        texts.status_roundTrip]
      cases texts.taskIdFromStr row.id with
      | error message => simp
      | ok id =>
          cases codec.fromValue value with
          | error message => simp
          | ok result => simp

/-- A task is reported missing only after an absence of the whole grace. -/
theorem Owed.taskNotFound {polls : List WaitPoll} {id : String}
    {item : WaitItem O Id} (h : Owed texts codec polls id item)
    {operation taskId queue hint : String}
    (hitem : item = .error (.taskNotFound operation taskId queue hint)) :
    taskId = id ∧ ∃ before poll after db first,
      polls = before ++ poll :: after ∧ poll.read = .ok db ∧
      AbsentFrom (before ++ [poll]) first id ∧
      first + initialBackoff ≤ poll.now := by
  cases h with
  | terminal hpolls hread hget hterminal =>
      exact absurd hitem (taskResultFromRow_ne_taskNotFound texts codec _ _ _
        _ _)
  | missing hpolls hread habsent hgrace =>
      cases hitem
      exact ⟨rfl, _, _, _, _, _, hpolls, hread, habsent, hgrace⟩

/-- At every point of every wait, an account says which id yielded which item
and why.  As long as no database error was yielded, each id is awaited or has
yielded once and the wait is over once all have; a database error follows
three failed polls, is the last item and gives the other ids up. -/
theorem completion_wait_accounted (taskIds : List Id)
    (polls : List WaitPoll) :
    (distinctIds (taskIds.map texts.toText)).Nodup ∧
    (∀ id, id ∈ distinctIds (taskIds.map texts.toText) ↔
      id ∈ taskIds.map texts.toText) ∧
    ∃ ledger : WaitLedger O Id,
      ledger.Explains texts codec (distinctIds (taskIds.map texts.toText))
        polls (waitForCompletion texts codec taskIds polls).1
        (waitForCompletion texts codec taskIds polls).2 ∧
      (∀ entry ∈ ledger.yielded, ∀ operation taskId queue hint,
        entry.2 = .error (.taskNotFound operation taskId queue hint) →
        taskId = entry.1 ∧ ∃ before poll after db first,
          polls = before ++ poll :: after ∧ poll.read = .ok db ∧
          AbsentFrom (before ++ [poll]) first entry.1 ∧
          first + initialBackoff ≤ poll.now) ∧
      (∀ poll, waitStep texts codec
          (waitForCompletion texts codec taskIds polls).2 poll = none ↔
        (waitForCompletion texts codec taskIds polls).2.remaining = []) ∧
      (ledger.failure = none →
        ((waitForCompletion texts codec taskIds polls).2.remaining = [] ↔
          (ledger.yielded.map Prod.fst).Perm
            (distinctIds (taskIds.map texts.toText)))) ∧
      initialBackoff ≤
        (waitForCompletion texts codec taskIds polls).2.backoff ∧
      (waitForCompletion texts codec taskIds polls).2.backoff ≤
        maxBackoff := by
  obtain ⟨ledger, hexplains, hremembers⟩ :=
    waitForCompletion_explained texts codec taskIds polls
  refine ⟨distinctIds_nodup _, fun _ => mem_distinctIds, ledger, hexplains,
    ?_, fun _ => waitStep_none, ?_, hremembers.backoff⟩
  · intro entry hentry operation taskId queue hint hitem
    exact (hexplains.owed entry hentry).taskNotFound texts codec hitem
  · intro hnone
    have honce := hexplains.once
    rw [hexplains.kept hnone, List.append_nil] at honce
    constructor
    · intro hover
      rwa [hover, List.append_nil] at honce
    · intro hall
      have hlength := honce.length_eq
      rw [List.length_append, hall.length_eq] at hlength
      exact List.length_eq_zero_iff.mp (by omega)

end

def secondUlid : UlidText :=
  ⟨"01HABCDEFGHJKMNPQRSTVWXYZ1", rfl⟩

/-- A poll the pool could not serve. -/
def failedPoll (now : Nat) : WaitPoll :=
  ⟨.error (.pool "timed out waiting for connection"), now⟩

/-- Two ids, three failed polls: the wait yields one item and awaits nothing,
so one of the ids has yielded nothing and is not awaited any more. -/
theorem completion_wait_abandons :
    distinctIds ([sampleUlid, secondUlid].map TaskTexts.canonical.toText) =
      [sampleUlid.val, secondUlid.val] ∧
    (waitForCompletion TaskTexts.canonical ResultCodec.json
      [sampleUlid, secondUlid]
      [failedPoll 0, failedPoll 1, failedPoll 2]).2.remaining = [] ∧
    (waitForCompletion TaskTexts.canonical ResultCodec.json
      [sampleUlid, secondUlid]
      [failedPoll 0, failedPoll 1, failedPoll 2]).1 =
        [.error (.pool "timed out waiting for connection")] := by
  refine ⟨by decide, ?_, ?_⟩
  · rfl
  · rfl

end ApalisPostgres
