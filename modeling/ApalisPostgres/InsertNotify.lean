/-
The notifications of one INSERT.  The trigger numbers the due rows of each
queue, cuts every queue into chunks of a hundred and sends one payload for
each; a single due row takes a path of its own.
-/
import ApalisPostgres.PayloadText
import ApalisPostgres.SharedListener
import ApalisPostgres.TaskBatch
import Mathlib.Data.List.Dedup
import Mathlib.Data.List.Perm.Basic
import Mathlib.Data.String.Basic

namespace ApalisPostgres

/-- A row of the transition table `new_jobs`, as far as the trigger reads
it. -/
structure NewJobRow where
  id : Ulid
  jobType : String
  runAt : Timestamp
deriving DecidableEq

/-- What the server is free to choose: how it collates ids, and in which order
it returns groups and aggregates their ids. -/
structure NotifyPlan where
  precedes : String → String → Bool
  irrefl : ∀ a, precedes a a = false
  trans : ∀ a b c, precedes a b = true → precedes b c = true →
    precedes a c = true
  total : ∀ a b, a ≠ b → precedes a b = true ∨ precedes b a = true
  groups : List (String × List Ulid) → List (String × List Ulid)
  groups_perm : ∀ found, (groups found).Perm found
  items : List Ulid → List Ulid
  items_perm : ∀ ids, (items ids).Perm ids

/-- `WHERE run_at <= cutoff`. -/
def dueRows (cutoff : Timestamp) (newJobs : List NewJobRow) :
    List NewJobRow :=
  newJobs.filter fun row => row.runAt ≤ cutoff

def notifyPayloadLimit : Nat := 8000

/-- `pg_notify` refuses a payload that is too long. -/
def pgNotify (payload : String) : Except DieselError String :=
  if payload.utf8ByteSize < notifyPayloadLimit then .ok payload
  else .error (.databaseError .unknown "payload string too long")

namespace NotifyPlan

variable (plan : NotifyPlan)

/-- The rows of the same queue that come before a row. -/
def before (rows : List NewJobRow) (row : NewJobRow) : List NewJobRow :=
  rows.filter fun other => other.jobType = row.jobType &&
    plan.precedes other.id.toText row.id.toText

/-- `row_number() OVER (PARTITION BY job_type ORDER BY id)`. -/
def rowNumber (rows : List NewJobRow) (row : NewJobRow) : Nat :=
  (plan.before rows row).length + 1

/-- What the subquery returns for a row: its `job_type` and its `chunk`. -/
def key (rows : List NewJobRow) (row : NewJobRow) : String × Nat :=
  (row.jobType, (plan.rowNumber rows row - 1) / 100)

/-- `GROUP BY job_type, chunk`. -/
def grouped (rows : List NewJobRow) : List (String × List Ulid) :=
  (rows.map (plan.key rows)).dedup.map fun key =>
    (key.1, (rows.filter fun row => plan.key rows row = key).map (·.id))

/-- The payloads of the loop over the groups. -/
def chunkPayloads (rows : List NewJobRow) : List String :=
  (plan.groups ((plan.grouped rows).map fun group =>
    (group.1, plan.items group.2))).map fun group =>
      payloadText group.1 (group.2.map Ulid.toText)

/-- `apalis.notify_new_jobs`: the payloads it sends, or the error that takes
the INSERT down.  The count goes into an `INTEGER`. -/
def notifyNewJobs (cutoff : Timestamp) (newJobs : List NewJobRow) :
    Except DieselError (List String) :=
  let newJobsCount := (dueRows cutoff newJobs).length
  if i32Max < (newJobsCount : Int) then .error Constraint.integerRange.fault
  else if newJobsCount = 0 then .ok []
  else if newJobsCount = 1 then
    match (dueRows cutoff newJobs).head? with
    | some singleRow =>
        (pgNotify (payloadText singleRow.jobType [singleRow.id.toText])).map
          fun payload => [payload]
    | none => .ok []
  else (plan.chunkPayloads (dueRows cutoff newJobs)).mapM pgNotify

end NotifyPlan

/-- How a payload is read: the JSON, and the ids in it. -/
structure InsertEventReader extends PayloadReader where
  parseId : String → Option Ulid
  parseId_toText : ∀ id : Ulid, parseId id.toText = some id

namespace InsertEventReader

variable (reader : InsertEventReader)

/-- `PgTaskId` as a JSON value, kept as its text. -/
def taskId : Json → Option String
  | .str text => (reader.parseId text).map Ulid.toText
  | _ => none

/-- The derived `Deserialize` of `InsertEvent`: `job_type` is required, the
others have defaults, and none of the three may be there twice. -/
def insertEvent (payload : String) : Option InsertEvent :=
  match reader.fromStr payload with
  | some (.obj fields) =>
      if ["job_type", "id", "ids"].any fun name =>
          1 < (fields.filter fun field => field.1 = name).length then none
      else
        match fields.lookup "job_type" with
        | some (.str jobType) =>
            (match fields.lookup "id" with
              | none | some .null => some none
              | some value => (reader.taskId value).map some).bind fun id =>
            (match fields.lookup "ids" with
              | none => some []
              | some (.arr items) => items.mapM reader.taskId
              | some _ => none).map fun ids => ⟨jobType, id, ids⟩
        | _ => none
  | _ => none

end InsertEventReader

/-- The ids that the events deliver under a queue. -/
def deliveredIds (events : List InsertEvent) (queue : String) : List String :=
  events.flatMap fun event =>
    if event.intoIds.1 = queue then event.intoIds.2 else []

theorem crockfordDigits_plain (n : Nat) :
    escapeChar (crockfordDigits.getD n (Char.ofNat 48)) =
        [crockfordDigits.getD n (Char.ofNat 48)] ∧
      (crockfordDigits.getD n (Char.ofNat 48)).utf8Size = 1 := by
  have hall : crockfordDigits.all
      (fun c => escapeChar c = [c] ∧ c.utf8Size = 1) = true := by
    decide +kernel
  rw [List.all_eq_true] at hall
  rw [List.getD_eq_getElem?_getD]
  cases hget : crockfordDigits[n]? with
  | none => exact of_decide_eq_true (hall '0' (by decide))
  | some c => exact of_decide_eq_true (hall c (List.mem_of_getElem? hget))

/-- An id is 26 bytes, and none of them is escaped. -/
theorem Ulid.byteLength_jsonString (id : Ulid) :
    byteLength (jsonString id.toText) = 28 := by
  have hplain : ∀ c ∈ id.toText.toList,
      escapeChar c = [c] ∧ c.utf8Size = 1 := by
    intro c hc
    rw [Ulid.toText, String.toList_ofList] at hc
    obtain ⟨i, -, rfl⟩ := List.mem_map.mp hc
    exact crockfordDigits_plain _
  have hsize : id.toText.utf8ByteSize = 26 := by
    rw [← byteLength_toList, byteLength,
      List.map_congr_left fun c hc => (hplain c hc).2, List.map_const',
      List.sum_replicate_nat]
    simp [Ulid.toText]
  rw [byteLength_jsonString_plain fun c hc => (hplain c hc).1, hsize]

/-- Grouping by a key neither loses nor repeats anything. -/
theorem grouped_perm {α κ : Type} [DecidableEq κ] (f : α → κ) (rows : List α)
    {keys : List κ} (hkeys : keys.Nodup) :
    (keys.flatMap fun key => rows.filter fun row => f row = key).Perm
      (rows.filter fun row => f row ∈ keys) := by
  induction keys with
  | nil => simp
  | cons key keys ih =>
      obtain ⟨hkey, hrest⟩ := List.nodup_cons.mp hkeys
      -- Split what has one of the keys into what has the first and the others.
      have hsplit := List.filter_append_perm (fun row => decide (f row = key))
        (rows.filter fun row => f row ∈ key :: keys)
      have hfirst : (rows.filter fun row => f row ∈ key :: keys).filter
          (fun row => decide (f row = key)) =
            rows.filter fun row => f row = key := by
        rw [List.filter_filter]
        refine List.filter_congr fun row _ => ?_
        by_cases h : f row = key
        · simp [h]
        · simp [h]
      have hothers : (rows.filter fun row => f row ∈ key :: keys).filter
          (fun row => !decide (f row = key)) =
            rows.filter fun row => f row ∈ keys := by
        rw [List.filter_filter]
        refine List.filter_congr fun row _ => ?_
        by_cases h : f row = key
        · simp [h, hkey]
        · simp [h]
      rw [hfirst, hothers] at hsplit
      rw [List.flatMap_cons]
      exact ((ih hrest).append_left _).trans hsplit

/-- The primary key tells the rows apart by the text of their ids. -/
structure DistinctRows (rows : List NewJobRow) : Prop where
  nodup : rows.Nodup
  text : ∀ row ∈ rows, ∀ other ∈ rows,
    row.id.toText = other.id.toText → row = other

namespace NotifyPlan

variable {plan : NotifyPlan} {rows : List NewJobRow}

/-- Rows of one queue have different numbers. -/
theorem rowNumber_lt {row other : NewJobRow} (hrow : row ∈ rows)
    (hqueue : row.jobType = other.jobType)
    (hprecedes : plan.precedes row.id.toText other.id.toText = true) :
    plan.rowNumber rows row < plan.rowNumber rows other := by
  have hsub : plan.before rows row = (plan.before rows other).filter
      fun third => plan.precedes third.id.toText row.id.toText := by
    simp only [before, List.filter_filter]
    refine List.filter_congr fun third _ => ?_
    rw [hqueue]
    cases hthird : plan.precedes third.id.toText row.id.toText with
    | false => simp
    | true => simp [plan.trans _ _ _ hthird hprecedes]
  have hmem : row ∈ plan.before rows other := by
    rw [before, List.mem_filter]
    exact ⟨hrow, by simp [hqueue, hprecedes]⟩
  have hless : (plan.before rows row).length <
      (plan.before rows other).length := by
    rw [hsub]
    refine List.length_filter_lt_length_iff_exists.mpr ⟨row, hmem, ?_⟩
    rw [plan.irrefl]
    exact Bool.false_ne_true
  exact Nat.succ_lt_succ hless

theorem rowNumber_injective (hrows : DistinctRows rows)
    {row other : NewJobRow} (hrow : row ∈ rows) (hother : other ∈ rows)
    (hqueue : row.jobType = other.jobType)
    (hnumber : plan.rowNumber rows row = plan.rowNumber rows other) :
    row = other := by
  by_contra hne
  have htext : row.id.toText ≠ other.id.toText := fun h =>
    hne (hrows.text row hrow other hother h)
  rcases plan.total _ _ htext with hbefore | hafter
  · exact absurd hnumber (Nat.ne_of_lt (rowNumber_lt hrow hqueue hbefore))
  · exact absurd hnumber.symm
      (Nat.ne_of_lt (rowNumber_lt hother hqueue.symm hafter))

/-- A chunk has at most a hundred rows. -/
theorem chunk_length (hrows : DistinctRows rows) (key : String × Nat) :
    (rows.filter fun row => plan.key rows row = key).length ≤ 100 := by
  let chunk := rows.filter fun row => plan.key rows row = key
  have hmem {row : NewJobRow} (h : row ∈ chunk) :
      row ∈ rows ∧ plan.key rows row = key := by
    simpa [chunk] using h
  have hnodup : (chunk.map fun row => plan.rowNumber rows row - 1).Nodup := by
    refine (List.nodup_map_iff_inj_on (hrows.nodup.filter _)).mpr ?_
    intro row hrow other hother hsame
    obtain ⟨hrow, hrowKey⟩ := hmem hrow
    obtain ⟨hother, hotherKey⟩ := hmem hother
    have hqueue : row.jobType = other.jobType :=
      (congrArg Prod.fst hrowKey).trans (congrArg Prod.fst hotherKey).symm
    exact rowNumber_injective hrows hrow hother hqueue
      (congrArg Nat.succ hsame)
  have hwithin : (chunk.map fun row => plan.rowNumber rows row - 1) ⊆
      List.range' (100 * key.2) 100 := by
    intro number hnumber
    obtain ⟨row, hrow, rfl⟩ := List.mem_map.mp hnumber
    have hchunk : (plan.rowNumber rows row - 1) / 100 = key.2 :=
      congrArg Prod.snd (hmem hrow).2
    rw [List.mem_range'_1]
    omega
  have hlength := (List.subperm_of_subset hnodup hwithin).length_le
  simpa using hlength

/-- The groups as the loop sees them. -/
def aggregated (plan : NotifyPlan) (rows : List NewJobRow) :
    List (String × List Ulid) :=
  plan.groups ((plan.grouped rows).map fun group =>
    (group.1, plan.items group.2))

theorem chunkPayloads_eq (plan : NotifyPlan) (rows : List NewJobRow) :
    plan.chunkPayloads rows = (plan.aggregated rows).map fun group =>
      payloadText group.1 (group.2.map Ulid.toText) := rfl

theorem mem_aggregated {group : String × List Ulid}
    (h : group ∈ plan.aggregated rows) :
    ∃ key ∈ rows.map (plan.key rows), group.1 = key.1 ∧
      group.2.Perm ((rows.filter fun row => plan.key rows row = key).map
        (·.id)) := by
  have hmem := (plan.groups_perm _).mem_iff.mp h
  simp only [grouped, List.map_map, List.mem_map, List.mem_dedup] at hmem
  obtain ⟨key, hkey, rfl⟩ := hmem
  exact ⟨key, List.mem_map.mpr hkey, rfl, plan.items_perm _⟩

/-- Every group has an id, and no more than a hundred. -/
theorem aggregated_length (hrows : DistinctRows rows)
    {group : String × List Ulid} (h : group ∈ plan.aggregated rows) :
    (∃ row ∈ rows, group.1 = row.jobType) ∧ group.2 ≠ [] ∧
      group.2.length ≤ 100 := by
  obtain ⟨key, hkey, hqueue, hperm⟩ := mem_aggregated h
  obtain ⟨row, hrow, rfl⟩ := List.mem_map.mp hkey
  refine ⟨⟨row, hrow, hqueue⟩, ?_, ?_⟩
  · intro hnil
    rw [hnil] at hperm
    have hnone := List.map_eq_nil_iff.mp hperm.nil_eq.symm
    have hself : row ∈ rows.filter fun other =>
        plan.key rows other = plan.key rows row :=
      List.mem_filter.mpr ⟨hrow, by simp⟩
    rw [hnone] at hself
    cases hself
  · rw [hperm.length_eq, List.length_map]
    exact chunk_length hrows _

/-- The groups of a queue hold its rows. -/
theorem aggregated_perm (plan : NotifyPlan) (rows : List NewJobRow)
    (queue : String) :
    ((plan.aggregated rows).flatMap fun group =>
        if group.1 = queue then group.2 else []).Perm
      ((rows.filter fun row => row.jobType = queue).map (·.id)) := by
  let keys := (rows.map (plan.key rows)).dedup
  let ours := rows.filter fun row => row.jobType = queue
  -- The order of the groups, and of the ids in them, is the server's.
  have hgroups := (plan.groups_perm ((plan.grouped rows).map fun group =>
    (group.1, plan.items group.2))).flatMap_right
      fun group => if group.1 = queue then group.2 else []
  have hitems : (((plan.grouped rows).map fun group =>
      (group.1, plan.items group.2)).flatMap fun group =>
        if group.1 = queue then group.2 else []).Perm
      ((plan.grouped rows).flatMap fun group =>
        if group.1 = queue then group.2 else []) := by
    rw [List.flatMap_map]
    refine List.Perm.flatMap_left _ fun group _ => ?_
    dsimp only
    split
    · exact plan.items_perm _
    · exact List.Perm.nil
  have hours : (plan.grouped rows).flatMap (fun group =>
      if group.1 = queue then group.2 else []) =
      (keys.flatMap fun key =>
        ours.filter fun row => plan.key rows row = key).map (·.id) := by
    rw [grouped, List.flatMap_map, List.map_flatMap]
    refine List.flatMap_congr fun key _ => ?_
    dsimp only
    split
    · rename_i hkey
      rw [List.filter_filter]
      congr 1
      refine List.filter_congr fun row _ => ?_
      by_cases h : plan.key rows row = key
      · have hqueue : row.jobType = queue := by
          rw [← hkey, ← h]
          rfl
        simp [h, hqueue]
      · simp [h]
    · rename_i hkey
      rw [List.filter_filter, eq_comm, List.map_eq_nil_iff,
        List.filter_eq_nil_iff]
      intro row _ hboth
      simp only [Bool.and_eq_true, decide_eq_true_eq] at hboth
      obtain ⟨h, hqueue⟩ := hboth
      exact hkey (by rw [← h, ← hqueue]; rfl)
  have hkeys : keys.Nodup := List.nodup_dedup _
  refine hgroups.trans (hitems.trans ?_)
  rw [hours]
  refine ((grouped_perm (plan.key rows) ours hkeys).trans ?_).map _
  rw [List.filter_eq_self.mpr]
  intro row hrow
  have hmem : row ∈ rows := (List.mem_filter.mp hrow).1
  simpa [keys] using ⟨row, hmem, rfl⟩

theorem chunkPayloads_single (plan : NotifyPlan) (row : NewJobRow) :
    plan.chunkPayloads [row] =
      [payloadText row.jobType [row.id.toText]] := by
  have hgrouped : plan.grouped [row] = [(row.jobType, [row.id])] := by
    simp [grouped, key]
  have hitems : plan.items [row.id] = [row.id] :=
    List.perm_singleton.mp (plan.items_perm _)
  rw [chunkPayloads, hgrouped, List.map_singleton, hitems,
    List.perm_singleton.mp (plan.groups_perm _)]
  rfl

/-- The trigger sends what its loop would send, if the count fits. -/
theorem notifyNewJobs_eq (plan : NotifyPlan) {cutoff : Timestamp}
    {newJobs : List NewJobRow}
    (hcount : ((dueRows cutoff newJobs).length : Int) ≤ i32Max) :
    plan.notifyNewJobs cutoff newJobs =
      (plan.chunkPayloads (dueRows cutoff newJobs)).mapM pgNotify := by
  rw [notifyNewJobs]
  simp only [if_neg (Int.not_lt.mpr hcount)]
  match hdue : dueRows cutoff newJobs with
  | [] =>
      have hnone : plan.chunkPayloads [] = [] := by
        rw [chunkPayloads]
        simp [grouped, List.perm_nil.mp (plan.groups_perm [])]
      rw [hnone]
      rfl
  | [row] =>
      rw [chunkPayloads_single]
      rw [List.mapM_cons, List.mapM_nil]
      simp only [List.length_singleton, List.head?_cons]
      cases pgNotify (payloadText row.jobType [row.id.toText]) with
      | error error => rfl
      | ok payload => rfl
  | first :: second :: rest => simp

end NotifyPlan

namespace InsertEventReader

theorem toText_injective (reader : InsertEventReader) {id other : Ulid}
    (h : id.toText = other.toText) : id = other := by
  have hid := reader.parseId_toText id
  rw [h, reader.parseId_toText other] at hid
  exact (Option.some.inj hid).symm

theorem insertEvent_payloadText (reader : InsertEventReader)
    (jobType : String) (ids : List Ulid) :
    reader.insertEvent (payloadText jobType (ids.map Ulid.toText)) =
      some ⟨jobType, none, ids.map Ulid.toText⟩ := by
  have hids : ids.mapM (reader.taskId ∘ Json.str ∘ Ulid.toText) =
      some (ids.map Ulid.toText) := by
    refine mapM_of_pure fun id _ => ?_
    simp only [Function.comp, taskId, reader.parseId_toText]
    rfl
  rw [insertEvent, reader.fromStr_payloadText]
  simp [List.lookup_cons, hids]

end InsertEventReader

theorem intoIds_of_length {jobType : String} {ids : List String}
    (hsome : ids ≠ []) (hlength : ids.length ≤ 100) :
    (InsertEvent.mk jobType none ids).intoIds = (jobType, ids) := by
  have htake : ids.take insertEventIdsCap = ids :=
    List.take_of_length_le (hlength.trans (by decide))
  simp [InsertEvent.intoIds, htake, hsome]

/-- The event that a group of ids is read back as. -/
def groupEvent (group : String × List Ulid) : InsertEvent :=
  ⟨group.1, none, group.2.map Ulid.toText⟩

/-- A reader for what the trigger sends. -/
def InsertEventReader.text : InsertEventReader where
  toPayloadReader := .json
  parseId := Ulid.ofText?
  parseId_toText := Ulid.ofText?_toText

/-- Ids by their characters, groups and ids in the order they are found. -/
def NotifyPlan.plain : NotifyPlan where
  precedes a b := decide (a < b)
  irrefl a := decide_eq_false (lt_irrefl a)
  trans _ _ _ hab hbc := decide_eq_true
    ((of_decide_eq_true hab).trans (of_decide_eq_true hbc))
  total _ _ hne := (lt_or_gt_of_ne hne).imp decide_eq_true decide_eq_true
  groups := id
  groups_perm _ := .refl _
  items := id
  items_perm _ := .refl _

namespace NotifyPlan

section

variable {plan : NotifyPlan} {rows : List NewJobRow}

theorem intoIds_groupEvent (hrows : DistinctRows rows)
    {group : String × List Ulid} (h : group ∈ plan.aggregated rows) :
    (groupEvent group).intoIds = (group.1, group.2.map Ulid.toText) := by
  obtain ⟨-, hsome, hlength⟩ := aggregated_length hrows h
  refine intoIds_of_length ?_ ?_
  · simpa using hsome
  · simpa using hlength

/-- Every payload of the loop is short enough. -/
theorem chunkPayloads_size (hrows : DistinctRows rows)
    (hqueues : ∀ row ∈ rows, row.jobType.utf8ByteSize ≤ maxQueueNameLen)
    {payload : String} (h : payload ∈ plan.chunkPayloads rows) :
    payload.utf8ByteSize < 8000 := by
  obtain ⟨group, hgroup, rfl⟩ := List.mem_map.mp h
  obtain ⟨⟨row, hrow, hqueue⟩, -, hlength⟩ := aggregated_length hrows hgroup
  refine payloadText_size ?_ ?_ (by simpa using hlength)
  · rw [hqueue]
    exact hqueues row hrow
  · intro text htext
    obtain ⟨id, -, rfl⟩ := List.mem_map.mp htext
    exact id.byteLength_jsonString.le

theorem chunkPayloads_sent (hrows : DistinctRows rows)
    (hqueues : ∀ row ∈ rows, row.jobType.utf8ByteSize ≤ maxQueueNameLen) :
    (plan.chunkPayloads rows).mapM pgNotify =
      .ok (plan.chunkPayloads rows) := by
  have hsent : ∀ payload ∈ plan.chunkPayloads rows,
      pgNotify payload = .ok payload := fun payload hpayload =>
    if_pos (chunkPayloads_size hrows hqueues hpayload)
  have hmap := mapM_of_pure hsent
  rwa [List.map_id'] at hmap

theorem chunkPayloads_read (reader : InsertEventReader) :
    (plan.chunkPayloads rows).mapM reader.insertEvent =
      some ((plan.aggregated rows).map groupEvent) := by
  rw [chunkPayloads_eq, List.mapM_map]
  exact mapM_of_pure fun group _ =>
    reader.insertEvent_payloadText group.1 group.2

theorem deliveredIds_perm (hrows : DistinctRows rows) (queue : String) :
    (deliveredIds ((plan.aggregated rows).map groupEvent) queue).Perm
      ((rows.filter fun row => row.jobType = queue).map
        (·.id.toText)) := by
  have hperm := (plan.aggregated_perm rows queue).map Ulid.toText
  rw [List.map_map, List.map_flatMap] at hperm
  rw [deliveredIds, List.flatMap_map]
  refine List.Perm.trans (List.Perm.of_eq ?_) hperm
  refine List.flatMap_congr fun group hgroup => ?_
  rw [intoIds_groupEvent hrows hgroup]
  dsimp only
  split
  · rfl
  · rfl

end

/-- Insert notifications are complete and bounded.  With ULID ids, queue names
within the cap and a count that fits its variable, the trigger sends payloads
that are all accepted and all read back, with at most a hundred ids in each;
for every queue they deliver its due rows, each once; and the path for a
single row sends what the loop would send. -/
theorem insert_notifications_complete (reader : InsertEventReader)
    (plan : NotifyPlan) (cutoff : Timestamp) (newJobs : List NewJobRow)
    (hids : (newJobs.map (·.id)).Nodup)
    (hqueues : ∀ row ∈ newJobs,
      row.jobType.utf8ByteSize ≤ maxQueueNameLen)
    (hcount : ((dueRows cutoff newJobs).length : Int) ≤ i32Max) :
    ∃ payloads events,
      plan.notifyNewJobs cutoff newJobs = .ok payloads ∧
      payloads.mapM reader.insertEvent = some events ∧
      (∀ queue, (deliveredIds events queue).Perm
        (((dueRows cutoff newJobs).filter fun row =>
          row.jobType = queue).map (·.id.toText))) ∧
      (∀ queue, (deliveredIds events queue).Nodup) ∧
      (∀ event ∈ events, event.intoIds.2.length ≤ 100 ∧
        ∃ row ∈ dueRows cutoff newJobs, event.intoIds.1 = row.jobType) ∧
      (∀ payload ∈ payloads, payload.utf8ByteSize < 8000) ∧
      (∀ row, dueRows cutoff newJobs = [row] →
        payloads = [payloadText row.jobType [row.id.toText]] ∧
        (plan.chunkPayloads [row]).mapM reader.insertEvent = some events) := by
  have hsub : (dueRows cutoff newJobs).Sublist newJobs := List.filter_sublist
  have hrows : DistinctRows (dueRows cutoff newJobs) := by
    refine ⟨(hids.of_map _).sublist hsub, ?_⟩
    intro row hrow other hother htext
    exact List.inj_on_of_nodup_map hids (hsub.subset hrow)
      (hsub.subset hother) (reader.toText_injective htext)
  have hshort : ∀ row ∈ dueRows cutoff newJobs,
      row.jobType.utf8ByteSize ≤ maxQueueNameLen := fun row hrow =>
    hqueues row (hsub.subset hrow)
  refine ⟨plan.chunkPayloads (dueRows cutoff newJobs), _,
    (plan.notifyNewJobs_eq hcount).trans (chunkPayloads_sent hrows hshort),
    chunkPayloads_read reader, deliveredIds_perm hrows, ?_, ?_,
    fun payload => chunkPayloads_size hrows hshort, ?_⟩
  · intro queue
    refine (deliveredIds_perm hrows queue).nodup_iff.mpr ?_
    refine (List.nodup_map_iff_inj_on (hrows.nodup.filter _)).mpr ?_
    intro row hrow other hother htext
    exact hrows.text row (List.mem_filter.mp hrow).1 other
      (List.mem_filter.mp hother).1 htext
  · intro event hevent
    obtain ⟨group, hgroup, rfl⟩ := List.mem_map.mp hevent
    obtain ⟨hrow, -, hlength⟩ := aggregated_length hrows hgroup
    rw [intoIds_groupEvent hrows hgroup]
    exact ⟨by simpa using hlength, hrow⟩
  · intro row hrow
    rw [hrow]
    exact ⟨plan.chunkPayloads_single row, chunkPayloads_read reader⟩

/-- Two due rows of a queue whose name needs an escape, and one that is not
due. -/
theorem insert_notifications_complete_escaped :
    ∃ payloads events,
      NotifyPlan.plain.notifyNewJobs 0
        [⟨⟨1⟩, "a\nb", 0⟩, ⟨⟨2⟩, "a\nb", 0⟩, ⟨⟨3⟩, "c", 5⟩] = .ok payloads ∧
      payloads.mapM InsertEventReader.text.insertEvent = some events ∧
      (deliveredIds events "a\nb").Perm
        [Ulid.toText ⟨1⟩, Ulid.toText ⟨2⟩] ∧
      (deliveredIds events "c").Perm [] := by
  obtain ⟨payloads, events, hsent, hread, hperm, -⟩ :=
    insert_notifications_complete .text .plain 0
      [⟨⟨1⟩, "a\nb", 0⟩, ⟨⟨2⟩, "a\nb", 0⟩, ⟨⟨3⟩, "c", 5⟩]
      (by decide) (by decide) (by decide)
  exact ⟨payloads, events, hsent, hread, hperm "a\nb", hperm "c"⟩

/-- So many due rows of one queue. -/
def burst (count : Nat) : List NewJobRow :=
  (List.range count).map fun i => ⟨⟨BitVec.ofNat 128 i⟩, "q", 0⟩

theorem dueRows_burst (count : Nat) : dueRows 0 (burst count) = burst count := by
  refine List.filter_eq_self.mpr fun row hrow => ?_
  obtain ⟨i, -, rfl⟩ := List.mem_map.mp hrow
  rfl

theorem burst_ids {count : Nat} (hcount : count ≤ 2 ^ 128) :
    ((burst count).map (·.id)).Nodup := by
  rw [burst, List.map_map]
  refine (List.nodup_map_iff_inj_on List.nodup_range).mpr ?_
  intro i hi j hj hsame
  have hbits : BitVec.ofNat 128 i = BitVec.ofNat 128 j :=
    congrArg Ulid.bits hsame
  have hvalue := congrArg BitVec.toNat hbits
  rw [BitVec.toNat_ofNat, BitVec.toNat_ofNat,
    Nat.mod_eq_of_lt ((List.mem_range.mp hi).trans_le hcount),
    Nat.mod_eq_of_lt ((List.mem_range.mp hj).trans_le hcount)] at hvalue
  exact hvalue

/-- A count that does not fit the `INTEGER` takes the INSERT down. -/
theorem insert_notifications_count_overflow :
    ((burst 2147483648).map (·.id)).Nodup ∧
      (∀ row ∈ burst 2147483648,
        row.jobType.utf8ByteSize ≤ maxQueueNameLen) ∧
      ∀ plan : NotifyPlan, plan.notifyNewJobs 0 (burst 2147483648) =
        .error Constraint.integerRange.fault := by
  refine ⟨burst_ids (by decide), ?_, ?_⟩
  · intro row hrow
    obtain ⟨i, -, rfl⟩ := List.mem_map.mp hrow
    show "q".utf8ByteSize ≤ maxQueueNameLen
    decide
  · intro plan
    have hlength : (burst 2147483648).length = 2147483648 := by
      rw [burst, List.length_map, List.length_range]
    rw [notifyNewJobs]
    simp only [dueRows_burst, hlength]
    exact if_pos (by decide)

end NotifyPlan

end ApalisPostgres
