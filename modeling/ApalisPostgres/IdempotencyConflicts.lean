/-
The accounting of idempotency conflicts.  The keys that collided are what the
submitted keys leave over once every landed row has been taken off them; the
documented recovery keeps one task of each of them and needs at most one more
round.
-/
import ApalisPostgres.BufferedTasks
import Mathlib.Data.List.Count

namespace ApalisPostgres

open RowStore

/-- A key is left over once it was submitted more often than it landed. -/
theorem mem_conflictingKeys {keys seen : List String}
    {inserted : List (Option String)} {key : String} :
    key ∈ conflictingKeys keys inserted seen ↔
      key ∉ seen ∧ inserted.count (some key) < keys.count key := by
  induction keys generalizing inserted seen with
  | nil => simp [conflictingKeys]
  | cons head rest ih =>
      by_cases hlanded : some head ∈ inserted
      · have hpos := List.count_pos_iff.mpr hlanded
        rw [conflictingKeys, if_pos hlanded, ih]
        by_cases hsame : key = head
        · subst hsame
          rw [List.count_erase_self, List.count_cons_self]
          have hcount : inserted.count (some key) - 1 < rest.count key ↔
              inserted.count (some key) < rest.count key + 1 := by omega
          rw [hcount]
        · rw [List.count_erase_of_ne (by simpa using hsame),
            List.count_cons_of_ne (Ne.symm hsame)]
      · have hzero := List.count_eq_zero.mpr hlanded
        by_cases hseen : head ∈ seen
        · rw [conflictingKeys, if_neg hlanded, if_pos hseen, ih]
          by_cases hsame : key = head
          · subst hsame
            simp [hseen]
          · rw [List.count_cons_of_ne (Ne.symm hsame)]
        · rw [conflictingKeys, if_neg hlanded, if_neg hseen, List.mem_cons, ih]
          by_cases hsame : key = head
          · subst hsame
            simp [hseen, hzero]
          · simp [hsame, List.count_cons_of_ne (Ne.symm hsame)]

theorem nodup_conflictingKeys (keys seen : List String)
    (inserted : List (Option String)) :
    (conflictingKeys keys inserted seen).Nodup := by
  induction keys generalizing inserted seen with
  | nil => exact List.nodup_nil
  | cons head rest ih =>
      unfold conflictingKeys
      split
      · exact ih seen _
      · split
        · exact ih seen inserted
        · rw [List.nodup_cons]
          refine ⟨?_, ih (head :: seen) inserted⟩
          intro hmem
          exact (mem_conflictingKeys.mp hmem).1 List.mem_cons_self

/-- A key lands at most once, and only if it is free. -/
theorem count_landed (taken : List String) (batch : List NewJob)
    (key : String) :
    ((landed taken batch).map NewJob.idempotencyKey).count (some key) =
      if key ∈ taken then 0
      else min 1 ((batch.filterMap NewJob.idempotencyKey).count key) := by
  induction batch generalizing taken with
  | nil => simp [landed]
  | cons task rest ih =>
      cases hkey : task.idempotencyKey with
      | none => simp [landed, hkey, ih]
      | some head =>
          by_cases htaken : head ∈ taken
          · by_cases hsame : key = head
            · subst hsame
              simp [landed, hkey, htaken, ih]
            · simp [landed, hkey, htaken, ih,
                List.count_cons_of_ne (Ne.symm hsame)]
          · by_cases hsame : key = head
            · subst hsame
              simp [landed, hkey, htaken, ih]
            · have hne : (some head : Option String) ≠ some key := by
                simpa using Ne.symm hsame
              simp [landed, hkey, htaken, ih, hsame,
                List.count_cons_of_ne hne, List.count_cons_of_ne (Ne.symm hsame)]

/-- A key of the batch that is stored, or that occurs twice. -/
def Collides (stored keys : List String) (key : String) : Prop :=
  key ∈ keys ∧ (key ∈ stored ∨ 2 ≤ keys.count key)

/-- The accountant reports exactly the collisions. -/
theorem mem_reported {stored : List String} {batch : List NewJob}
    {key : String} :
    key ∈ conflictingKeys (batch.filterMap NewJob.idempotencyKey)
        ((landed stored batch).map NewJob.idempotencyKey) [] ↔
      Collides stored (batch.filterMap NewJob.idempotencyKey) key := by
  have hmem : key ∈ batch.filterMap NewJob.idempotencyKey ↔
      0 < (batch.filterMap NewJob.idempotencyKey).count key :=
    List.count_pos_iff.symm
  rw [mem_conflictingKeys, count_landed, Collides, hmem]
  simp only [List.not_mem_nil, not_false_eq_true, true_and]
  by_cases hstored : key ∈ stored
  · simp [hstored]
  · simp only [hstored, ↓reduceIte, false_or]
    omega

/-- No key of the batch is stored and none occurs twice. -/
structure Unclaimed (stored keys : List String) : Prop where
  fresh : ∀ key ∈ keys, key ∉ stored
  nodup : keys.Nodup

theorem unclaimed_iff {stored keys : List String} :
    Unclaimed stored keys ↔ ∀ key, ¬ Collides stored keys key := by
  constructor
  · rintro h key ⟨hmem, hstored | htwice⟩
    · exact h.fresh key hmem hstored
    · have honce := List.nodup_iff_count_le_one.mp h.nodup key
      omega
  · intro h
    refine ⟨fun key hmem hstored => h key ⟨hmem, Or.inl hstored⟩, ?_⟩
    apply List.nodup_iff_count_le_one.mpr
    intro key
    by_contra htwice
    have hpos : 0 < keys.count key := by omega
    exact h key ⟨List.count_pos_iff.mp hpos, Or.inr (by omega)⟩

/-- A batch of free keys lands whole. -/
theorem landed_of_unclaimed {stored : List String} {batch : List NewJob}
    (h : Unclaimed stored (batch.filterMap NewJob.idempotencyKey)) :
    landed stored batch = batch := by
  induction batch generalizing stored with
  | nil => rfl
  | cons task rest ih =>
      cases hkey : task.idempotencyKey with
      | none =>
          rw [List.filterMap_cons_none hkey] at h
          simp [landed, hkey, ih h]
      | some key =>
          rw [List.filterMap_cons_some hkey] at h
          obtain ⟨hnot, hnodup⟩ := List.nodup_cons.mp h.nodup
          have hrest : Unclaimed (key :: stored)
              (rest.filterMap NewJob.idempotencyKey) := by
            refine ⟨?_, hnodup⟩
            intro other hother hstored
            rcases List.mem_cons.mp hstored with rfl | hstored
            · exact hnot hother
            · exact h.fresh other (List.mem_cons_of_mem _ hother) hstored
          simp [landed, hkey, h.fresh key List.mem_cons_self, ih hrest]

/-- The present keys of a list are counted alike with and without NULLs. -/
theorem count_some_idempotencyKey (batch : List NewJob) (key : String) :
    (batch.map NewJob.idempotencyKey).count (some key) =
      (batch.filterMap NewJob.idempotencyKey).count key := by
  induction batch with
  | nil => rfl
  | cons task rest ih =>
      cases hkey : task.idempotencyKey with
      | none => simpa [hkey] using ih
      | some head =>
          by_cases hsame : head = key
          · simp [hkey, hsame, ih]
          · have hne : (some head : Option String) ≠ some key := by
              simpa using hsame
            simp [hkey, List.count_cons_of_ne hne,
              List.count_cons_of_ne hsame, ih]

/-- A batch falls short exactly when some key collides. -/
theorem landed_short_iff {stored : List String} {batch : List NewJob} :
    (landed stored batch).length < batch.length ↔
      ¬ Unclaimed stored (batch.filterMap NewJob.idempotencyKey) := by
  constructor
  · intro hshort hfree
    rw [landed_of_unclaimed hfree] at hshort
    exact absurd hshort (Nat.lt_irrefl _)
  · intro hclash
    by_contra hlong
    have hall : landed stored batch = batch :=
      (landed_sublist stored batch).eq_of_length_le (Nat.le_of_not_lt hlong)
    apply hclash
    rw [unclaimed_iff]
    intro key hcollides
    have hover := (mem_conflictingKeys.mp (mem_reported.mpr hcollides)).2
    rw [hall, count_some_idempotencyKey] at hover
    exact absurd hover (Nat.lt_irrefl _)

namespace Push

/-- The keys of a batch, repeated ones included. -/
def keysOf (tasks : List SubmittedTask) : List String :=
  tasks.filterMap SubmittedTask.idempotencyKey

/-- Every task is within the caps and within the rules of its columns. -/
def Submittable (json : JsonText) (queue : String)
    (tasks : List SubmittedTask) : Prop :=
  ∀ task ∈ tasks, validateTask json.toText queue task = .ok () ∧
    WithinColumns queue task

/-- One enqueue of the outbox, from its savepoint to the release of it. -/
def pushed (json : JsonText) (fresh : Nat → Ulid) (queue : String)
    (tasks : List SubmittedTask) (env : Nat → Env) (db : Db) :
    BodyEnd Db Effect Error Unit :=
  (pushTasksOnConn json fresh queue tasks).execute sql env db

variable {json : JsonText} {fresh : Nat → Ulid} {queue : String}
  {tasks : List SubmittedTask} {env : Nat → Env} {db : Db}

theorem batchJobs_filterMap (fresh : Nat → Ulid) (tasks : List SubmittedTask) :
    (batchJobs fresh tasks).filterMap NewJob.idempotencyKey = keysOf tasks := by
  have hkeys := congrArg (List.filterMap id) (batchJobs_keys fresh tasks)
  simpa [keysOf, List.filterMap_map] using hkeys

theorem pushed_rejected {task : SubmittedTask} {error : Error}
    (htask : task ∈ tasks)
    (hbad : validateTask json.toText queue task = .error error)
    (env : Nat → Env) (db : Db) :
    ∃ message, prepareBatch json.toText fresh queue tasks =
        .error (.invalidArgument message) ∧
      pushed json fresh queue tasks env db =
        ⟨db, [], .error (.invalidArgument message)⟩ := by
  obtain ⟨refused, hbatch⟩ := (prepareBatch_error_iff queue tasks).mpr
    ⟨task, htask, error, hbad⟩
  have houtcome := prepareBatch_outcome json.toText fresh queue tasks
  rw [hbatch] at houtcome
  obtain ⟨other, _, hother⟩ := prepareBatch_refused houtcome.symm
  obtain ⟨message, rfl⟩ := validateTask_error hother
  refine ⟨message, hbatch, ?_⟩
  simp [pushed, pushTasksOnConn, hbatch, Program.execute, Program.runBody]

theorem pushed_refused {task : SubmittedTask}
    (hvalid : ∀ task ∈ tasks, validateTask json.toText queue task = .ok ())
    (htask : task ∈ tasks) (hbad : ¬ WithinColumns queue task)
    (env : Nat → Env) (db : Db) :
    ∃ fault, pushed json fresh queue tasks env db =
      ⟨db, [], .error (.database "inserting jobs" fault)⟩ := by
  obtain ⟨batch, hbatch⟩ := prepareBatch_of_valid fresh hvalid
    (List.ne_nil_of_mem htask)
  obtain ⟨fault, hfault⟩ := insertPrepared_refused hbatch htask hbad env db
  exact ⟨fault, by simp only [pushed, pushTasksOnConn, hbatch, hfault]⟩

/-- A submittable batch of free keys is appended whole. -/
theorem pushed_inserted (h : Submittable json queue tasks)
    (hids : FreshIds db.jobs (batchJobs fresh tasks))
    (hfree : Unclaimed (storedKeys queue db.jobs) (keysOf tasks))
    (env : Nat → Env) :
    (pushed json fresh queue tasks env db).outcome = .ok () ∧
      (pushed json fresh queue tasks env db).view.jobs.rows =
        db.jobs.rows ++
          (batchJobs fresh tasks).map (fun job => job.row queue) ∧
      (pushed json fresh queue tasks env db).view.workers = db.workers := by
  by_cases hempty : tasks = []
  · subst hempty
    have hnone : pushed json fresh queue [] env db = ⟨db, [], .ok ()⟩ := rfl
    simp [hnone, batchJobs]
  · obtain ⟨batch, hbatch⟩ := prepareBatch_of_valid fresh
      (fun task htask => (h task htask).1) hempty
    have hinsert := insertPrepared_landed hbatch
      (fun task htask => (h task htask).2) hids env
    rw [if_neg] at hinsert
    · simp only [pushed, pushTasksOnConn, hbatch, hinsert]
      exact ⟨trivial, apply_enqueueEffects hids⟩
    · rw [← length_batchJobs fresh tasks, landed_short_iff,
        batchJobs_filterMap, not_not]
      exact hfree

/-- A submittable batch with a collision is rolled back and reports it. -/
theorem pushed_conflict (h : Submittable json queue tasks)
    (hids : FreshIds db.jobs (batchJobs fresh tasks))
    (hclash : ¬ Unclaimed (storedKeys queue db.jobs) (keysOf tasks))
    (env : Nat → Env) :
    ∃ keys, pushed json fresh queue tasks env db =
        ⟨db, [], .error (.idempotencyConflict queue keys tasks.length)⟩ ∧
      keys.Nodup ∧
      ∀ key, key ∈ keys ↔
        Collides (storedKeys queue db.jobs) (keysOf tasks) key := by
  have hempty : tasks ≠ [] := by
    rintro rfl
    exact hclash ⟨by simp [keysOf], by simp [keysOf]⟩
  obtain ⟨batch, hbatch⟩ := prepareBatch_of_valid fresh
    (fun task htask => (h task htask).1) hempty
  have hinsert := insertPrepared_landed hbatch
    (fun task htask => (h task htask).2) hids env
  let inserted := (landed (storedKeys queue db.jobs)
    (batchJobs fresh tasks)).map NewJob.idempotencyKey
  rw [if_pos] at hinsert
  · refine ⟨conflictingKeys (keysOf tasks) inserted [], ?_,
      nodup_conflictingKeys (keysOf tasks) [] inserted, ?_⟩
    · simp only [pushed, pushTasksOnConn, hbatch]
      exact hinsert
    · intro key
      rw [← batchJobs_filterMap fresh tasks]
      exact mem_reported
  · rw [← length_batchJobs fresh tasks, landed_short_iff, batchJobs_filterMap]
    exact hclash

/-- A task whose key was reported. -/
def conflicted (reported : List String) (task : SubmittedTask) : Bool :=
  task.idempotencyKey.any fun key => reported.contains key

/-- The batch without the tasks of the reported keys. -/
def dropping (reported : List String) (tasks : List SubmittedTask) :
    List SubmittedTask :=
  tasks.filter fun task => !conflicted reported task

/-- The first step of the documented recovery: exactly one task of every
reported key is kept, and every other task. -/
structure OneEach (reported : List String) (tasks kept : List SubmittedTask) :
    Prop where
  sublist : kept.Sublist tasks
  others : dropping reported kept = dropping reported tasks
  single : ∀ key ∈ reported, (keysOf kept).count key = 1

/-- What the recovery leaves: every key of the batch is stored once, and the
written tasks include every task without a key. -/
structure Recovered (queue : String) (db : Db) (tasks : List SubmittedTask)
    (after : Db) : Prop where
  keys : ∀ key ∈ keysOf tasks, (storedKeys queue after.jobs).count key = 1
  keyless : ∃ fresh written, after.jobs.rows = db.jobs.rows ++
      (batchJobs fresh written).map (fun job => job.row queue) ∧
    written.filter (fun task => task.idempotencyKey.isNone) =
      tasks.filter fun task => task.idempotencyKey.isNone

theorem keysOf_sublist {kept : List SubmittedTask} (h : kept.Sublist tasks) :
    (keysOf kept).Sublist (keysOf tasks) :=
  h.filterMap _

theorem mem_keysOf {key : String} :
    key ∈ keysOf tasks ↔ ∃ task ∈ tasks, task.idempotencyKey = some key := by
  simp [keysOf]

theorem conflicted_of_key {reported : List String} {task : SubmittedTask}
    {key : String} (h : task.idempotencyKey = some key) :
    conflicted reported task = true ↔ key ∈ reported := by
  simp [conflicted, h]

theorem keyless_dropping (reported : List String)
    (tasks : List SubmittedTask) :
    (dropping reported tasks).filter (fun task => task.idempotencyKey.isNone) =
      tasks.filter fun task => task.idempotencyKey.isNone := by
  rw [dropping, List.filter_filter]
  apply List.filter_congr
  intro task _
  cases hkey : task.idempotencyKey <;> simp [conflicted, hkey]

theorem mem_keysOf_dropping {reported : List String} {key : String} :
    key ∈ keysOf (dropping reported tasks) ↔
      key ∈ keysOf tasks ∧ key ∉ reported := by
  simp only [mem_keysOf, dropping, List.mem_filter, Bool.not_eq_true',
    ← Bool.not_eq_true]
  constructor
  · rintro ⟨task, ⟨htask, hnot⟩, hkey⟩
    rw [conflicted_of_key hkey] at hnot
    exact ⟨⟨task, htask, hkey⟩, hnot⟩
  · rintro ⟨⟨task, htask, hkey⟩, hnot⟩
    refine ⟨task, ⟨htask, ?_⟩, hkey⟩
    rwa [conflicted_of_key hkey]

/-- Deduplication loses no key. -/
theorem OneEach.mem_keysOf {reported : List String}
    {kept : List SubmittedTask} (h : OneEach reported tasks kept)
    {key : String} (hkey : key ∈ keysOf tasks) : key ∈ keysOf kept := by
  by_cases hreported : key ∈ reported
  · apply List.count_pos_iff.mp
    rw [h.single key hreported]
    exact Nat.one_pos
  · have hother : key ∈ keysOf (dropping reported kept) := by
      rw [h.others]
      exact mem_keysOf_dropping.mpr ⟨hkey, hreported⟩
    exact (mem_keysOf_dropping.mp hother).1

/-- And it leaves no key twice. -/
theorem OneEach.nodup {reported stored : List String}
    {kept : List SubmittedTask} (h : OneEach reported tasks kept)
    (hreported : ∀ key, key ∈ reported ↔
      Collides stored (keysOf tasks) key) :
    (keysOf kept).Nodup := by
  apply List.nodup_iff_count_le_one.mpr
  intro key
  by_cases hmem : key ∈ reported
  · exact (h.single key hmem).le
  · have hle := (keysOf_sublist h.sublist).count_le key
    by_contra htwice
    apply hmem
    rw [hreported]
    exact ⟨List.count_pos_iff.mp (by omega), Or.inr (by omega)⟩

theorem OneEach.keyless {reported : List String} {kept : List SubmittedTask}
    (h : OneEach reported tasks kept) :
    kept.filter (fun task => task.idempotencyKey.isNone) =
      tasks.filter fun task => task.idempotencyKey.isNone := by
  rw [← keyless_dropping reported kept, h.others, keyless_dropping]

theorem Submittable.sublist {kept : List SubmittedTask}
    (h : Submittable json queue tasks) (hkept : kept.Sublist tasks) :
    Submittable json queue kept :=
  fun task htask => h task (hkept.subset htask)

/-- A batch that lands whole and names every key that is not stored recovers
the tasks. -/
theorem recovered_of_inserted {written : List SubmittedTask}
    (h : Submittable json queue written)
    (hunique : (storedKeys queue db.jobs).Nodup)
    (hids : FreshIds db.jobs (batchJobs fresh written))
    (hfree : Unclaimed (storedKeys queue db.jobs) (keysOf written))
    (hkeys : ∀ key ∈ keysOf tasks,
      key ∈ storedKeys queue db.jobs ∨ key ∈ keysOf written)
    (hkeyless : written.filter (fun task => task.idempotencyKey.isNone) =
      tasks.filter fun task => task.idempotencyKey.isNone)
    (env : Nat → Env) :
    (pushed json fresh queue written env db).outcome = .ok () ∧
      Recovered queue db tasks (pushed json fresh queue written env db).view := by
  obtain ⟨hok, hrows, _⟩ := pushed_inserted h hids hfree env
  refine ⟨hok, ?_, fresh, written, hrows, hkeyless⟩
  have hstored : storedKeys queue
      (pushed json fresh queue written env db).view.jobs =
        storedKeys queue db.jobs ++ keysOf written := by
    rw [storedKeys, hrows, List.filter_append, List.filterMap_append,
      ← batchJobs_filterMap fresh written]
    congr 1
    have hall : ∀ job ∈ batchJobs fresh written,
        (job.row queue).jobType = queue := fun _ _ => rfl
    rw [List.filter_eq_self.mpr (by simpa using hall), List.filterMap_map]
    rfl
  intro key hkey
  rw [hstored, List.count_append]
  rcases hkeys key hkey with hold | hnew
  · have hnot : key ∉ keysOf written := fun hmem => hfree.fresh key hmem hold
    rw [List.count_eq_one_of_mem hunique hold, List.count_eq_zero.mpr hnot]
  · rw [List.count_eq_zero.mpr (hfree.fresh key hnew),
      List.count_eq_one_of_mem hfree.nodup hnew]

/-- What an enqueue returned and left, judged against the table before it. -/
structure Accounted (json : JsonText) (fresh : Nat → Ulid) (queue : String)
    (tasks : List SubmittedTask) (db : Db) (outcome : Except Error Unit)
    (after : Db) : Prop where
  /-- a task over a cap: nothing is issued -/
  rejected : (∃ task ∈ tasks, ∃ error,
      validateTask json.toText queue task = .error error) →
    (∃ message, outcome = .error (.invalidArgument message)) ∧ after = db
  /-- a task outside the rules of its columns: the INSERT fails -/
  refused : (∀ task ∈ tasks, validateTask json.toText queue task = .ok ()) →
    (∃ task ∈ tasks, ¬ WithinColumns queue task) →
    (∃ fault, outcome = .error (.database "inserting jobs" fault)) ∧ after = db
  inserted : outcome = .ok () ↔ Submittable json queue tasks ∧
    Unclaimed (storedKeys queue db.jobs) (keysOf tasks)
  rows : outcome = .ok () → after.jobs.rows = db.jobs.rows ++
      (batchJobs fresh tasks).map (fun job => job.row queue) ∧
    after.workers = db.workers
  conflict : Submittable json queue tasks →
    ¬ Unclaimed (storedKeys queue db.jobs) (keysOf tasks) →
    ∃ keys, outcome = .error (.idempotencyConflict queue keys tasks.length) ∧
      after = db ∧ keys ≠ [] ∧ keys.Nodup ∧
      ∀ key, key ∈ keys ↔
        Collides (storedKeys queue db.jobs) (keysOf tasks) key

/-- The two rounds of the recovery, from the deduplicated batch on. -/
def Recovers (json : JsonText) (queue : String) (db : Db)
    (tasks kept : List SubmittedTask) (fresh : Nat → Ulid)
    (env : Nat → Env) : Prop :=
  ((pushed json fresh queue kept env db).outcome = .ok () ∧
    Recovered queue db tasks (pushed json fresh queue kept env db).view) ∨
  ∃ reported, (pushed json fresh queue kept env db).outcome =
      .error (.idempotencyConflict queue reported kept.length) ∧
    (pushed json fresh queue kept env db).view = db ∧
    ∀ last lastEnv,
      FreshIds db.jobs (batchJobs last (dropping reported kept)) →
      (pushed json last queue (dropping reported kept) lastEnv db).outcome =
        .ok () ∧
      Recovered queue db tasks
        (pushed json last queue (dropping reported kept) lastEnv db).view

/-- How an enqueue without an id collision can end. -/
theorem pushed_cases (json : JsonText) (env : Nat → Env)
    (hids : FreshIds db.jobs (batchJobs fresh tasks)) :
    ((∃ task ∈ tasks, ∃ error,
        validateTask json.toText queue task = .error error) ∧
      ∃ message, pushed json fresh queue tasks env db =
        ⟨db, [], .error (.invalidArgument message)⟩) ∨
    ((∀ task ∈ tasks, validateTask json.toText queue task = .ok ()) ∧
      (∃ task ∈ tasks, ¬ WithinColumns queue task) ∧
      ∃ fault, pushed json fresh queue tasks env db =
        ⟨db, [], .error (.database "inserting jobs" fault)⟩) ∨
    (Submittable json queue tasks ∧
      Unclaimed (storedKeys queue db.jobs) (keysOf tasks) ∧
      (pushed json fresh queue tasks env db).outcome = .ok ()) ∨
    (Submittable json queue tasks ∧
      ¬ Unclaimed (storedKeys queue db.jobs) (keysOf tasks) ∧
      ∃ keys, pushed json fresh queue tasks env db =
        ⟨db, [], .error (.idempotencyConflict queue keys tasks.length)⟩) := by
  by_cases hvalid : ∀ task ∈ tasks, validateTask json.toText queue task = .ok ()
  · by_cases hcolumns : ∀ task ∈ tasks, WithinColumns queue task
    · have hsubmit : Submittable json queue tasks :=
        fun task htask => ⟨hvalid task htask, hcolumns task htask⟩
      by_cases hfree : Unclaimed (storedKeys queue db.jobs) (keysOf tasks)
      · exact Or.inr (Or.inr (Or.inl
          ⟨hsubmit, hfree, (pushed_inserted hsubmit hids hfree env).1⟩))
      · obtain ⟨keys, hkeys, _⟩ := pushed_conflict hsubmit hids hfree env
        exact Or.inr (Or.inr (Or.inr ⟨hsubmit, hfree, keys, hkeys⟩))
    · push Not at hcolumns
      obtain ⟨task, htask, hbad⟩ := hcolumns
      exact Or.inr (Or.inl ⟨hvalid, ⟨task, htask, hbad⟩,
        pushed_refused hvalid htask hbad env db⟩)
  · push Not at hvalid
    obtain ⟨task, htask, hbad⟩ := hvalid
    cases hresult : validateTask json.toText queue task with
    | ok value => exact absurd hresult hbad
    | error error =>
        obtain ⟨message, _, hpushed⟩ := pushed_rejected htask hresult env db
        exact Or.inl ⟨⟨task, htask, error, hresult⟩, message, hpushed⟩

theorem pushed_accounted (json : JsonText) (env : Nat → Env)
    (hids : FreshIds db.jobs (batchJobs fresh tasks)) :
    Accounted json fresh queue tasks db
      (pushed json fresh queue tasks env db).outcome
      (pushed json fresh queue tasks env db).view := by
  constructor
  · rintro ⟨task, htask, error, hbad⟩
    obtain ⟨message, _, hpushed⟩ := pushed_rejected htask hbad env db
    rw [hpushed]
    exact ⟨⟨message, rfl⟩, rfl⟩
  · rintro hvalid ⟨task, htask, hbad⟩
    obtain ⟨fault, hpushed⟩ := pushed_refused hvalid htask hbad env db
    rw [hpushed]
    exact ⟨⟨fault, rfl⟩, rfl⟩
  · constructor
    · intro hok
      rcases pushed_cases json env hids with ⟨_, message, hpushed⟩ |
        ⟨_, _, fault, hpushed⟩ | ⟨hsubmit, hfree, _⟩ | ⟨_, _, keys, hpushed⟩
      · rw [hpushed] at hok
        cases hok
      · rw [hpushed] at hok
        cases hok
      · exact ⟨hsubmit, hfree⟩
      · rw [hpushed] at hok
        cases hok
    · rintro ⟨hsubmit, hfree⟩
      exact (pushed_inserted hsubmit hids hfree env).1
  · intro hok
    rcases pushed_cases json env hids with ⟨_, message, hpushed⟩ |
      ⟨_, _, fault, hpushed⟩ | ⟨hsubmit, hfree, _⟩ | ⟨_, _, keys, hpushed⟩
    · rw [hpushed] at hok
      cases hok
    · rw [hpushed] at hok
      cases hok
    · exact (pushed_inserted hsubmit hids hfree env).2
    · rw [hpushed] at hok
      cases hok
  · intro hsubmit hclash
    obtain ⟨keys, hpushed, hnodup, hkeys⟩ :=
      pushed_conflict hsubmit hids hclash env
    rw [hpushed]
    refine ⟨keys, rfl, rfl, ?_, hnodup, hkeys⟩
    rintro rfl
    apply hclash
    rw [unclaimed_iff]
    intro key hcollides
    exact List.not_mem_nil ((hkeys key).mpr hcollides)

/-- The recovery ends with every task accounted for. -/
theorem recovers_of_conflict {reported : List String} {total : Nat}
    {kept : List SubmittedTask}
    (hids : FreshIds db.jobs (batchJobs fresh tasks))
    (hunique : (storedKeys queue db.jobs).Nodup)
    (hconflict : (pushed json fresh queue tasks env db).outcome =
      .error (.idempotencyConflict queue reported total))
    (hkept : OneEach reported tasks kept) {again : Nat → Ulid}
    (hagain : FreshIds db.jobs (batchJobs again kept))
    (againEnv : Nat → Env) :
    Recovers json queue db tasks kept again againEnv := by
  have hfirst : Submittable json queue tasks ∧ ∀ key, key ∈ reported ↔
      Collides (storedKeys queue db.jobs) (keysOf tasks) key := by
    rcases pushed_cases json env hids with ⟨_, message, hpushed⟩ |
      ⟨_, _, fault, hpushed⟩ | ⟨_, _, hok⟩ | ⟨hsubmit, hclash, _⟩
    · rw [hpushed] at hconflict
      cases hconflict
    · rw [hpushed] at hconflict
      cases hconflict
    · rw [hok] at hconflict
      cases hconflict
    · obtain ⟨keys, hpushed, _, hkeys⟩ :=
        pushed_conflict hsubmit hids hclash env
      rw [hpushed] at hconflict
      cases hconflict
      exact ⟨hsubmit, hkeys⟩
  obtain ⟨hsubmit, hreported⟩ := hfirst
  have hkeptSubmit := hsubmit.sublist hkept.sublist
  have hnodup := hkept.nodup hreported
  by_cases hfree : Unclaimed (storedKeys queue db.jobs) (keysOf kept)
  · left
    apply recovered_of_inserted hkeptSubmit hunique hagain hfree
    · intro key hkey
      exact Or.inr (hkept.mem_keysOf hkey)
    · exact hkept.keyless
  · right
    obtain ⟨still, hpushed, _, hstill⟩ :=
      pushed_conflict hkeptSubmit hagain hfree againEnv
    rw [hpushed]
    refine ⟨still, rfl, rfl, ?_⟩
    intro last lastEnv hlast
    have hdropped : (dropping still kept).Sublist kept := List.filter_sublist
    -- without repetitions, only a stored key is reported again
    have hlastFree : Unclaimed (storedKeys queue db.jobs)
        (keysOf (dropping still kept)) := by
      refine ⟨?_, (keysOf_sublist hdropped).nodup hnodup⟩
      intro key hkey hstored
      obtain ⟨hmem, hnot⟩ := mem_keysOf_dropping.mp hkey
      exact hnot ((hstill key).mpr ⟨hmem, Or.inl hstored⟩)
    apply recovered_of_inserted (hkeptSubmit.sublist hdropped) hunique hlast
      hlastFree
    · intro key hkey
      by_cases hstored : key ∈ storedKeys queue db.jobs
      · exact Or.inl hstored
      · right
        refine mem_keysOf_dropping.mpr ⟨hkept.mem_keysOf hkey, ?_⟩
        intro hagainReported
        obtain ⟨_, hold | htwice⟩ := (hstill key).mp hagainReported
        · exact hstored hold
        · have honce := List.nodup_iff_count_le_one.mp hnodup key
          omega
    · rw [keyless_dropping]
      exact hkept.keyless

theorem flushOnConn_eq
    (hvalid : ∀ task ∈ tasks, validateTask json.toText queue task = .ok ())
    (env : Nat → Env) (db : Db) :
    flushOnConn json fresh queue tasks env db =
      ((pushed json fresh queue tasks env db).outcome.mapError
        FlushPhase.uncertain, (pushed json fresh queue tasks env db).view) := by
  by_cases hempty : tasks = []
  · subst hempty
    rfl
  · obtain ⟨batch, hbatch⟩ := prepareBatch_of_valid fresh hvalid hempty
    simp only [flushOnConn, pushed, pushTasksOnConn, hbatch]

/-- Over every stored table and every batch without an id collision: an
enqueue inserts every task if and only if every task passes the caps and the
rules of its columns and no key is stored or repeated; otherwise the table is
as before and, unless a cap or a column refused a task, the error names
exactly the collided keys.  A flush ends the same way, and the documented
recovery ends with every key stored once and every task without a key
written. -/
theorem idempotency_conflicts_accounted (json : JsonText) (fresh : Nat → Ulid)
    (queue : String) (tasks : List SubmittedTask) (env : Nat → Env) (db : Db)
    (hids : FreshIds db.jobs (batchJobs fresh tasks))
    (hunique : (storedKeys queue db.jobs).Nodup) :
    Accounted json fresh queue tasks db
      (pushed json fresh queue tasks env db).outcome
      (pushed json fresh queue tasks env db).view ∧
    ((∀ task ∈ tasks, validateTask json.toText queue task = .ok ()) →
      flushOnConn json fresh queue tasks env db =
        ((pushed json fresh queue tasks env db).outcome.mapError
          FlushPhase.uncertain,
          (pushed json fresh queue tasks env db).view)) ∧
    ((∃ task ∈ tasks, ∃ error,
        validateTask json.toText queue task = .error error) →
      ∃ message, flushOnConn json fresh queue tasks env db =
        (.error (.rejected (.invalidArgument message)), db)) ∧
    (∀ reported total, (pushed json fresh queue tasks env db).outcome =
        .error (.idempotencyConflict queue reported total) →
      ∀ kept, OneEach reported tasks kept → ∀ again againEnv,
        FreshIds db.jobs (batchJobs again kept) →
        Recovers json queue db tasks kept again againEnv) := by
  refine ⟨pushed_accounted json env hids,
    fun hvalid => flushOnConn_eq hvalid env db, ?_, ?_⟩
  · rintro ⟨task, htask, error, hbad⟩
    have hbatch : ∃ message, prepareBatch json.toText fresh queue tasks =
        .error (.invalidArgument message) ∧ _ :=
      pushed_rejected htask hbad env db
    obtain ⟨message, hbatch, _⟩ := hbatch
    exact ⟨message, by simp only [flushOnConn, hbatch]⟩
  · intro reported total hconflict kept hkept again againEnv hagain
    exact recovers_of_conflict hids hunique hconflict hkept hagain againEnv

/-- A stored key, a repeated key and a task without one: the batch is refused
with both keys, and the deduplicated batch recovers it. -/
theorem idempotency_conflicts_accounted_mixed :
    let task : Option String → SubmittedTask := fun key =>
      ⟨[], none, 0, 25, 0, [], key⟩
    let env : Nat → Env := fun _ =>
      ⟨0, fun _ => false, fun _ => false, fun _ => true, true⟩
    let db := (pushed JsonText.bare (fun i => ⟨i⟩) "queue" [task (some "a")]
      env .empty).view
    let tasks := [task (some "a"), task (some "b"), task (some "b"), task none]
    let kept := [task (some "a"), task (some "b"), task none]
    (pushed JsonText.bare (fun i => ⟨1 + i⟩) "queue" tasks env db).outcome =
        .error (.idempotencyConflict "queue" ["a", "b"] 4) ∧
      Recovers JsonText.bare "queue" db tasks kept (fun i => ⟨1 + i⟩) env := by
  intro task env db tasks kept
  have hconflict : (pushed JsonText.bare (fun i => ⟨1 + i⟩) "queue" tasks env
      db).outcome = .error (.idempotencyConflict "queue" ["a", "b"] 4) := by
    decide +kernel
  refine ⟨hconflict, ?_⟩
  have hkept : OneEach ["a", "b"] tasks kept := by
    refine ⟨?_, rfl, by decide⟩
    exact .cons_cons _ (.cons_cons _ (.cons _ (.cons_cons _ .slnil)))
  obtain ⟨_, _, _, hrecovers⟩ := idempotency_conflicts_accounted JsonText.bare
    (fun i => ⟨1 + i⟩) "queue" tasks env db (by decide +kernel)
    (by decide +kernel)
  exact hrecovers _ _ hconflict kept hkept _ env (by decide +kernel)

/-- A task without a key and without a retry budget is neither inserted nor
reported as a conflict. -/
theorem push_without_budget_is_no_conflict :
    let task : SubmittedTask := ⟨[], none, 0, 0, 0, [], none⟩
    let fresh : Nat → Ulid := fun i => ⟨i⟩
    let env : Nat → Env := fun _ =>
      ⟨0, fun _ => false, fun _ => false, fun _ => true, true⟩
    FreshIds Db.empty.jobs (batchJobs fresh [task]) ∧
      Unclaimed (storedKeys "queue" Db.empty.jobs) (keysOf [task]) ∧
      (pushed JsonText.bare fresh "queue" [task] env .empty).outcome =
        .error (.database "inserting jobs"
          Constraint.jobsMaxAttemptsCheck.fault) := by
  intro task fresh env
  refine ⟨by decide +kernel, ⟨?_, List.nodup_nil⟩, by decide +kernel⟩
  intro key hkey
  cases hkey

end Push

end ApalisPostgres
