/-
Listing tasks by pages.  The sort key ends in the primary key, so any plan of
the database returns the rows of one listing, and consecutive pages cut it at
multiples of the page size.  The offset is computed with checked arithmetic.
-/
import ApalisPostgres.Acknowledgement
import ApalisPostgres.Transitions

namespace ApalisPostgres

open RowStore

/-- The core crate's filter; `limit` is what `Filter::limit` returns. -/
structure Filter where
  status : Option Status
  page : UInt32
  limit : UInt32
deriving Repr, DecidableEq

def checkedSub (left right : UInt32) : Option UInt32 :=
  if right.toNat ≤ left.toNat then some (left - right) else none

def checkedMul (left right : UInt32) : Option UInt32 :=
  if left.toNat * right.toNat < 2 ^ 32 then some (left * right) else none

def i32FromU32 (value : UInt32) (field : String) : Except Error Int32 :=
  if (value.toNat : Int) ≤ i32Max then .ok value.toInt32
  else
    .error (.invalidArgument
      (field ++ " " ++ toString value ++ " exceeds i32::MAX"))

def filterOffsetI32 (filter : Filter) : Except Error Int32 :=
  if filter.page = 0 then
    .error (.invalidArgument "filter.page must be >= 1 (1-based pagination)")
  else
    match (checkedSub filter.page 1).bind fun page =>
        checkedMul page filter.limit with
    | none =>
        .error (.invalidArgument ("filter offset overflows u32 (page=" ++
          toString filter.page ++ ", limit=" ++ toString filter.limit ++ ")"))
    | some offset => i32FromU32 offset "offset"

/-- `done_at DESC` of two different values: a NULL comes first. -/
def doneAtBefore : Option Timestamp → Option Timestamp → Prop
  | none, some _ => True
  | some left, some right => right < left
  | _, none => False

instance : DecidableRel doneAtBefore := fun left right =>
  match left, right with
  | none, some _ => inferInstanceAs (Decidable True)
  | some left, some right => inferInstanceAs (Decidable (right < left))
  | none, none => inferInstanceAs (Decidable False)
  | some _, none => inferInstanceAs (Decidable False)

/-- `ORDER BY done_at DESC, run_at DESC, id DESC`.  Ids are compared by code
points; the collation of a database may order them otherwise, and what follows
needs a total order of them only. -/
def listOrder (left right : JobRow) : Prop :=
  doneAtBefore left.doneAt right.doneAt ∨
    (left.doneAt = right.doneAt ∧
      (right.runAt < left.runAt ∨
        (right.runAt = left.runAt ∧ right.id ≤ left.id)))

instance : DecidableRel listOrder := fun _ _ =>
  inferInstanceAs (Decidable (_ ∨ _))

/-- How the database sorts for one query: any way that the `ORDER BY` allows
and that neither loses nor repeats a row. -/
structure SortPlan where
  sort : List JobRow → List JobRow
  perm : ∀ rows, (sort rows).Perm rows
  ordered : ∀ rows, (sort rows).Pairwise listOrder

/-- `ORDER BY .. LIMIT .. OFFSET ..` over the rows of a `WHERE` clause.  The
bounds come from unsigned values and are not negative. -/
def listRows (plan : SortPlan) (keep : JobRow → Bool) (db : Db)
    (limit offset : Int32) : List JobRow :=
  ((plan.sort (db.jobs.rows.filter keep)).drop offset.toInt.toNat).take
    limit.toInt.toNat

/-- `WHERE status = $1 AND job_type = $2`. -/
def ofQueue (queue : String) (status : Status) (row : JobRow) : Bool :=
  row.status = status && row.jobType = queue

/-- `WHERE status = $1`. -/
def ofStatus (status : Status) (row : JobRow) : Bool := row.status = status

def listTasksRows (plan : SortPlan) (read : Except Error Db) (queue : String)
    (status : Status) (limit offset : Int32) : Except Error (List JobRow) := do
  return listRows plan (ofQueue queue status) (← read) limit offset

def listAllTasksRows (plan : SortPlan) (read : Except Error Db)
    (status : Status) (limit offset : Int32) : Except Error (List JobRow) := do
  return listRows plan (ofStatus status) (← read) limit offset

section

variable {Args : Type} (rows : TaskConversion)
  (decode : List UInt8 → Except String Args)

/-- `task.try_map(|args| D::decode(&args))`. -/
def decodeTask (task : Task) : Except Error (Args × Parts) :=
  match decode task.args with
  | .ok args => .ok (args, task.parts)
  | .error message => .error (.decode message)

/-- The rows of a page as tasks: all are converted before any is decoded. -/
def decodedTasks (listed : List JobRow) :
    Except Error (List (Args × Parts)) := do
  let tasks ← listed.mapM (taskRow rows)
  tasks.mapM (decodeTask decode)

def listTasks (plan : SortPlan) (read : Except Error Db) (queue : String)
    (filter : Filter) : Except Error (List (Args × Parts)) := do
  let status := filter.status.getD .pending
  let limit ← i32FromU32 filter.limit "limit"
  let offset ← filterOffsetI32 filter
  let listed ← listTasksRows plan read queue status limit offset
  decodedTasks rows decode listed

def listAllTasks (plan : SortPlan) (read : Except Error Db)
    (filter : Filter) : Except Error (List Task) := do
  let status := filter.status.getD .pending
  let limit ← i32FromU32 filter.limit "limit"
  let offset ← filterOffsetI32 filter
  let listed ← listAllTasksRows plan read status limit offset
  listed.mapM (taskRow rows)

end

/-- The rows before a page, in unbounded arithmetic. -/
def Filter.rowsBefore (filter : Filter) : Nat :=
  (filter.page.toNat - 1) * filter.limit.toNat

theorem i32FromU32_ok {value : UInt32} (field : String)
    (h : (value.toNat : Int) ≤ i32Max) :
    i32FromU32 value field = .ok value.toInt32 ∧
      value.toInt32.toInt = value.toNat := by
  refine ⟨if_pos h, ?_⟩
  change value.toBitVec.toInt = value.toBitVec.toNat
  apply BitVec.toInt_eq_toNat_of_lt
  change 2 * value.toNat < 2 ^ 32
  unfold i32Max at h
  omega

theorem i32FromU32_error {value : UInt32} (field : String)
    (h : i32Max < (value.toNat : Int)) :
    ∃ message, i32FromU32 value field = .error (.invalidArgument message) :=
  ⟨_, if_neg (Int.not_le.mpr h)⟩

theorem checkedSub_one {page : UInt32} (hpage : page ≠ 0) :
    ∃ previous, checkedSub page 1 = some previous ∧
      previous.toNat = page.toNat - 1 := by
  have hone : (1 : UInt32) ≤ page := by
    rw [UInt32.le_iff_toNat_le]
    rcases Nat.eq_zero_or_pos page.toNat with hzero | hpos
    · exact absurd (UInt32.toNat_inj.mp hzero) hpage
    · exact hpos
  exact ⟨page - 1, if_pos (UInt32.le_iff_toNat_le.mp hone),
    UInt32.toNat_sub_of_le _ _ hone⟩

theorem checkedMul_some {left right : UInt32}
    (h : left.toNat * right.toNat < 2 ^ 32) :
    ∃ product, checkedMul left right = some product ∧
      product.toNat = left.toNat * right.toNat := by
  refine ⟨left * right, if_pos h, ?_⟩
  rw [UInt32.toNat_mul]
  exact Nat.mod_eq_of_lt h

/-- The offset is exact where it is returned. -/
theorem filterOffsetI32_ok {filter : Filter} (hpage : filter.page ≠ 0)
    (hfits : (filter.rowsBefore : Int) ≤ i32Max) :
    ∃ offset, filterOffsetI32 filter = .ok offset ∧
      offset.toInt = filter.rowsBefore := by
  obtain ⟨previous, hsub, hprevious⟩ := checkedSub_one hpage
  obtain ⟨product, hmul, hproduct⟩ : ∃ product,
      checkedMul previous filter.limit = some product ∧
        product.toNat = filter.rowsBefore := by
    rw [Filter.rowsBefore, ← hprevious]
    apply checkedMul_some
    rw [hprevious]
    unfold i32Max Filter.rowsBefore at hfits
    omega
  rw [← hproduct] at hfits ⊢
  obtain ⟨hok, hexact⟩ := i32FromU32_ok "offset" hfits
  refine ⟨_, ?_, hexact⟩
  rw [filterOffsetI32, if_neg hpage, hsub, Option.bind_some, hmul]
  exact hok

theorem filterOffsetI32_error {filter : Filter}
    (h : filter.page = 0 ∨ i32Max < (filter.rowsBefore : Int)) :
    ∃ message, filterOffsetI32 filter = .error (.invalidArgument message) := by
  by_cases hpage : filter.page = 0
  · exact ⟨_, if_pos hpage⟩
  · have hlarge : i32Max < (filter.rowsBefore : Int) := h.resolve_left hpage
    obtain ⟨previous, hsub, hprevious⟩ := checkedSub_one hpage
    rw [filterOffsetI32, if_neg hpage, hsub, Option.bind_some]
    by_cases hfits : previous.toNat * filter.limit.toNat < 2 ^ 32
    · obtain ⟨product, hmul, hproduct⟩ := checkedMul_some hfits
      rw [hmul]
      apply i32FromU32_error
      rw [hproduct, hprevious]
      exact hlarge
    · rw [checkedMul, if_neg hfits]
      exact ⟨_, rfl⟩

theorem doneAtBefore_cases (left right : Option Timestamp) :
    doneAtBefore left right ∨ left = right ∨ doneAtBefore right left := by
  cases left with
  | none =>
      cases right with
      | none => exact Or.inr (Or.inl rfl)
      | some right => exact Or.inl trivial
  | some left =>
      cases right with
      | none => exact Or.inr (Or.inr trivial)
      | some right =>
          rcases Int.lt_trichotomy right left with hlt | heq | hgt
          · exact Or.inl hlt
          · exact Or.inr (Or.inl (congrArg some heq.symm))
          · exact Or.inr (Or.inr hgt)

theorem doneAtBefore_trans {left middle right : Option Timestamp}
    (hleft : doneAtBefore left middle) (hright : doneAtBefore middle right) :
    doneAtBefore left right := by
  cases middle with
  | none => cases left <;> exact hleft.elim
  | some middle =>
      cases right with
      | none => exact hright.elim
      | some right =>
          cases left with
          | none => trivial
          | some left => exact Int.lt_trans hright hleft

theorem doneAtBefore_irrefl (doneAt : Option Timestamp) :
    ¬ doneAtBefore doneAt doneAt := by
  cases doneAt with
  | none => exact id
  | some doneAt => exact Int.lt_irrefl doneAt

instance : Std.Total listOrder where
  total left right := by
    unfold listOrder
    rcases doneAtBefore_cases left.doneAt right.doneAt with
      hbefore | heq | hafter
    · exact Or.inl (Or.inl hbefore)
    · rcases Int.lt_trichotomy right.runAt left.runAt with hlt | hsame | hgt
      · exact Or.inl (Or.inr ⟨heq, Or.inl hlt⟩)
      · rcases le_total right.id left.id with hle | hge
        · exact Or.inl (Or.inr ⟨heq, Or.inr ⟨hsame, hle⟩⟩)
        · exact Or.inr (Or.inr ⟨heq.symm, Or.inr ⟨hsame.symm, hge⟩⟩)
      · exact Or.inr (Or.inr ⟨heq.symm, Or.inl hgt⟩)
    · exact Or.inr (Or.inl hafter)

instance : IsTrans JobRow listOrder where
  trans left middle right hleft hright := by
    unfold listOrder at hleft hright ⊢
    rcases hleft with hleft | ⟨hleft, hleftKey⟩
    · rcases hright with hright | ⟨hright, _⟩
      · exact Or.inl (doneAtBefore_trans hleft hright)
      · exact Or.inl (hright ▸ hleft)
    · rcases hright with hright | ⟨hright, hrightKey⟩
      · exact Or.inl (hleft ▸ hright)
      · refine Or.inr ⟨hleft.trans hright, ?_⟩
        rcases hleftKey with hlt | ⟨heq, hle⟩
        · rcases hrightKey with hnext | ⟨hnext, _⟩
          · exact Or.inl (hnext.trans hlt)
          · exact Or.inl (hnext ▸ hlt)
        · rcases hrightKey with hnext | ⟨hnext, hbelow⟩
          · exact Or.inl (heq ▸ hnext)
          · exact Or.inr ⟨hnext.trans heq, hbelow.trans hle⟩

/-- Only a row of the same id is as early and as late. -/
theorem listOrder_antisymm {left right : JobRow} (hleft : listOrder left right)
    (hright : listOrder right left) : left.id = right.id := by
  rcases hleft with hbefore | ⟨hdone, hkey⟩
  · rcases hright with hafter | ⟨hsame, _⟩
    · exact absurd (doneAtBefore_trans hbefore hafter)
        (doneAtBefore_irrefl _)
    · rw [hsame] at hbefore
      exact absurd hbefore (doneAtBefore_irrefl _)
  · rcases hright with hafter | ⟨_, hother⟩
    · rw [hdone] at hafter
      exact absurd hafter (doneAtBefore_irrefl _)
    · rcases hkey with hlt | ⟨heq, hle⟩
      · rcases hother with hgt | ⟨hsame, _⟩
        · exact absurd (hlt.trans hgt) (Int.lt_irrefl _)
        · exact absurd hlt (hsame ▸ Int.lt_irrefl _)
      · rcases hother with hgt | ⟨_, hge⟩
        · exact absurd hgt (heq ▸ Int.lt_irrefl _)
        · exact le_antisymm hge hle

/-- The whole listing of a `WHERE` clause. -/
def listing (keep : JobRow → Bool) (db : Db) : List JobRow :=
  (db.jobs.rows.filter keep).insertionSort listOrder

/-- Every plan returns the listing: the sort key tells any two rows apart. -/
theorem SortPlan.sort_eq (plan : SortPlan) (keep : JobRow → Bool) (db : Db) :
    plan.sort (db.jobs.rows.filter keep) = listing keep db := by
  have hperm : (plan.sort (db.jobs.rows.filter keep)).Perm
      (listing keep db) :=
    (plan.perm _).trans (List.perm_insertionSort listOrder _).symm
  refine List.Perm.eq_of_pairwise ?_ (plan.ordered _)
    (List.pairwise_insertionSort listOrder _) hperm
  intro left right hleft hright hforth hback
  have hstored : ∀ {row}, row ∈ listing keep db → row ∈ db.jobs.rows :=
    fun hrow => (List.mem_filter.mp ((List.mem_insertionSort _).mp hrow)).1
  exact Db.row_unique (hstored (hperm.subset hleft)) (hstored hright)
    (listOrder_antisymm hforth hback)

theorem listing_nodup (keep : JobRow → Bool) (db : Db) :
    (listing keep db).Nodup := by
  rw [listing, (List.perm_insertionSort listOrder _).nodup_iff]
  exact (List.Nodup.of_map _ db.jobs.keyed).filter _

theorem flatten_pages {α : Type} (whole : List α) (size count : Nat) :
    ((List.range count).map fun k =>
      (whole.drop (k * size)).take size).flatten =
        whole.take (count * size) := by
  induction count with
  | zero => simp
  | succ count ih =>
      rw [List.range_succ, List.map_append, List.flatten_append, ih,
        Nat.succ_mul, List.take_add]
      simp

/-- A reading of lists that reads a concatenation by its parts. -/
structure Piecewise {α β : Type} (read : List α → Except Error (List β)) :
    Prop where
  nil : read [] = .ok []
  append : ∀ first second tasks, read (first ++ second) = .ok tasks ↔
    ∃ left right, read first = .ok left ∧ read second = .ok right ∧
      left ++ right = tasks

section

variable {α β γ : Type}

theorem mapM_append_ok (f : α → Except Error β) (first second : List α)
    (tasks : List β) :
    (first ++ second).mapM f = .ok tasks ↔
      ∃ left right, first.mapM f = .ok left ∧ second.mapM f = .ok right ∧
        left ++ right = tasks := by
  rw [List.mapM_append]
  cases hfirst : first.mapM f with
  | error error => simp [bind, Except.bind]
  | ok left =>
      cases hsecond : second.mapM f with
      | error error => simp [bind, Except.bind]
      | ok right => simp [bind, Except.bind, pure, Except.pure]

theorem piecewise_mapM (f : α → Except Error β) :
    Piecewise fun list : List α => list.mapM f :=
  ⟨rfl, mapM_append_ok f⟩

theorem Piecewise.bind {read : List α → Except Error (List β)}
    {next : List β → Except Error (List γ)} (hread : Piecewise read)
    (hnext : Piecewise next) : Piecewise fun list => read list >>= next := by
  constructor
  · rw [hread.nil]
    exact hnext.nil
  · intro first second tasks
    constructor
    · intro h
      cases hall : read (first ++ second) with
      | error error => simp [hall, Bind.bind, Except.bind] at h
      | ok middle =>
          rw [hall] at h
          obtain ⟨left, right, hleft, hright, rfl⟩ :=
            (hread.append first second middle).mp hall
          obtain ⟨one, two, hone, htwo, rfl⟩ :=
            (hnext.append left right tasks).mp h
          exact ⟨one, two, by rw [hleft]; exact hone,
            by rw [hright]; exact htwo, rfl⟩
    · rintro ⟨one, two, hone, htwo, rfl⟩
      cases hleft : read first with
      | error error => simp [hleft, Bind.bind, Except.bind] at hone
      | ok left =>
          cases hright : read second with
          | error error => simp [hright, Bind.bind, Except.bind] at htwo
          | ok right =>
              rw [hleft] at hone
              rw [hright] at htwo
              have hall := (hread.append first second _).mpr
                ⟨left, right, hleft, hright, rfl⟩
              rw [hall]
              exact (hnext.append left right _).mpr
                ⟨one, two, hone, htwo, rfl⟩

/-- Reading the parts one after the other is reading their concatenation. -/
theorem Piecewise.mapM {read : List α → Except Error (List β)}
    (h : Piecewise read) (parts : List (List α)) (tasks : List β) :
    read parts.flatten = .ok tasks ↔
      ∃ pages, parts.mapM read = .ok pages ∧ pages.flatten = tasks := by
  induction parts generalizing tasks with
  | nil => simp [h.nil, pure, Except.pure, eq_comm]
  | cons part parts ih =>
      rw [List.flatten_cons, h.append]
      constructor
      · rintro ⟨left, right, hleft, hright, rfl⟩
        obtain ⟨pages, hpages, rfl⟩ := (ih right).mp hright
        refine ⟨left :: pages, ?_, rfl⟩
        simp [List.mapM_cons, hleft, hpages, Bind.bind, Except.bind, pure,
          Except.pure]
      · rintro ⟨pages, hpages, rfl⟩
        rw [List.mapM_cons] at hpages
        cases hleft : read part with
        | error error => simp [hleft, Bind.bind, Except.bind] at hpages
        | ok left =>
            cases hrest : parts.mapM read with
            | error error =>
                simp [hleft, hrest, Bind.bind, Except.bind] at hpages
            | ok rest =>
                simp only [hleft, hrest, Bind.bind, Except.bind, pure,
                  Except.pure, Except.ok.injEq] at hpages
                subst hpages
                exact ⟨left, rest.flatten, rfl, (ih _).mpr ⟨rest, hrest, rfl⟩,
                  rfl⟩

end

/-- The number of pages that hold rows. -/
def pageCount (total size : Nat) : Nat := (total + size - 1) / size

theorem pageCount_covers {total size : Nat} (hsize : 0 < size) :
    total ≤ pageCount total size * size := by
  have hdiv := Nat.div_add_mod (total + size - 1) size
  have hmod := Nat.mod_lt (total + size - 1) hsize
  rw [pageCount, Nat.mul_comm]
  omega

theorem lt_of_lt_pageCount {total size k : Nat} (hsize : 0 < size)
    (hk : k < pageCount total size) : k * size < total := by
  have hle := (Nat.le_div_iff_mul_le hsize).mp (Nat.succ_le_of_lt hk)
  rw [Nat.succ_mul] at hle
  omega

/-- The pages of a listing: `page k` is the answer to page `k + 1`, and
`read` turns the rows of a page into its items. -/
structure Paginates {α β : Type} (whole : List α) (size : Nat)
    (read : List α → Except Error (List β))
    (page : Nat → Except Error (List β)) : Prop where
  pages : ∀ k, ((k * size : Nat) : Int) ≤ i32Max →
    page k = read ((whole.drop (k * size)).take size)
  filled : ∀ k, ((k * size : Nat) : Int) ≤ i32Max →
    k < pageCount whole.length size → page k ≠ .ok []
  ended : ((pageCount whole.length size * size : Nat) : Int) ≤ i32Max →
    page (pageCount whole.length size) = .ok []
  whole : ((pageCount whole.length size * size : Nat) : Int) ≤ i32Max →
    ∀ items, read whole = .ok items ↔
      ∃ pages, (List.range (pageCount whole.length size)).mapM page =
        .ok pages ∧ pages.flatten = items

section

variable {α β : Type}

theorem mapM_congr {f g : α → Except Error β} {list : List α}
    (h : ∀ item ∈ list, f item = g item) : list.mapM f = list.mapM g := by
  induction list with
  | nil => rfl
  | cons item rest ih =>
      rw [List.mapM_cons, List.mapM_cons, h item List.mem_cons_self,
        ih fun other hother => h other (List.mem_cons_of_mem _ hother)]

/-- Pages cut at multiples of the size paginate the whole list. -/
theorem Paginates.of_pages {whole : List α} {size : Nat}
    {read : List α → Except Error (List β)}
    {page : Nat → Except Error (List β)} (hsize : 0 < size)
    (hread : Piecewise read)
    (hlength : ∀ list items, read list = .ok items →
      items.length = list.length)
    (hpages : ∀ k, ((k * size : Nat) : Int) ≤ i32Max →
      page k = read ((whole.drop (k * size)).take size)) :
    Paginates whole size read page := by
  refine ⟨hpages, ?_, ?_, ?_⟩
  · intro k hk hcount hempty
    rw [hpages k hk] at hempty
    have hnone := hlength _ _ hempty
    have hlt := lt_of_lt_pageCount hsize hcount
    simp only [List.length_nil, List.length_take, List.length_drop] at hnone
    omega
  · intro hk
    rw [hpages _ hk, List.drop_eq_nil_of_le (pageCount_covers hsize),
      List.take_nil]
    exact hread.nil
  · intro hk items
    have hall : whole = ((List.range (pageCount whole.length size)).map
        fun k => (whole.drop (k * size)).take size).flatten := by
      rw [flatten_pages, List.take_of_length_le (pageCount_covers hsize)]
    have hparts : (List.range (pageCount whole.length size)).mapM page =
        ((List.range (pageCount whole.length size)).map
          fun k => (whole.drop (k * size)).take size).mapM read := by
      rw [List.mapM_map]
      apply mapM_congr
      intro k hmem
      apply hpages
      have hle := Nat.mul_le_mul_right size (List.mem_range.mp hmem).le
      omega
    rw [hparts]
    conv_lhs => rw [hall]
    exact hread.mapM _ items

theorem length_mapM {f : α → Except Error β} {list : List α}
    {items : List β} (h : list.mapM f = .ok items) :
    items.length = list.length := by
  induction list generalizing items with
  | nil =>
      cases h
      rfl
  | cons item rest ih =>
      have hsplit : ([item] ++ rest).mapM f = .ok items := h
      obtain ⟨left, right, hleft, hright, rfl⟩ :=
        (mapM_append_ok f [item] rest items).mp hsplit
      rw [List.length_append, ih hright, List.length_cons, Nat.add_comm]
      cases hitem : f item with
      | error error =>
          simp [List.mapM_cons, hitem, bind, Except.bind] at hleft
      | ok value =>
          simp only [List.mapM_cons, List.mapM_nil, hitem, bind, Except.bind,
            pure, Except.pure, Except.ok.injEq] at hleft
          rw [← hleft]
          rfl

end

section

variable {Args : Type} {rows : TaskConversion}
  {decode : List UInt8 → Except String Args}

theorem piecewise_decodedTasks : Piecewise (decodedTasks rows decode) :=
  (piecewise_mapM (taskRow rows)).bind (piecewise_mapM (decodeTask decode))

theorem length_decodedTasks {listed : List JobRow}
    {items : List (Args × Parts)}
    (h : decodedTasks rows decode listed = .ok items) :
    items.length = listed.length := by
  unfold decodedTasks at h
  cases htasks : listed.mapM (taskRow rows) with
  | error error => simp [htasks, bind, Except.bind] at h
  | ok tasks =>
      rw [htasks] at h
      exact (length_mapM h).trans (length_mapM htasks)

/-- The rows of one page of a listing. -/
theorem listRows_page (plan : SortPlan) (keep : JobRow → Bool) (db : Db)
    (status : Option Status) {size : UInt32} {k : Nat}
    (hsize : (size.toNat : Int) ≤ i32Max) (hpositive : 0 < size.toNat)
    (hk : ((k * size.toNat : Nat) : Int) ≤ i32Max) :
    ∃ limit offset, i32FromU32 size "limit" = .ok limit ∧
      filterOffsetI32 ⟨status, UInt32.ofNat (k + 1), size⟩ = .ok offset ∧
      listRows plan keep db limit offset =
        ((listing keep db).drop (k * size.toNat)).take size.toNat := by
  have hsmall : k ≤ k * size.toNat := Nat.le_mul_of_pos_right k hpositive
  have hpage : (UInt32.ofNat (k + 1)).toNat = k + 1 := by
    apply UInt32.toNat_ofNat_of_lt'
    unfold i32Max at hk
    simp only [UInt32.size]
    omega
  have hnonzero : UInt32.ofNat (k + 1) ≠ 0 := by
    intro hzero
    rw [hzero] at hpage
    cases hpage
  have hbefore : (Filter.mk status (UInt32.ofNat (k + 1)) size).rowsBefore =
      k * size.toNat := by
    simp only [Filter.rowsBefore, hpage, Nat.add_sub_cancel]
  obtain ⟨hlimit, hexact⟩ := i32FromU32_ok "limit" hsize
  obtain ⟨offset, hoffset, hrows⟩ := filterOffsetI32_ok
    (show (Filter.mk status (UInt32.ofNat (k + 1)) size).page ≠ 0 from
      hnonzero) (hbefore ▸ hk)
  refine ⟨_, offset, hlimit, hoffset, ?_⟩
  rw [listRows, plan.sort_eq, hexact, hrows, hbefore, Int.toNat_natCast,
    Int.toNat_natCast]

end

/-- For every table, status and page size, and however each query is planned:
the pages of a queue and the pages of all queues cut their whole listing, in
order, without a gap or an overlap, up to the first empty page.  The offset of
a page is exact, or the request is refused. -/
theorem pages_partition_listing {Args : Type} (rows : TaskConversion)
    (decode : List UInt8 → Except String Args) (db : Db) (queue : String)
    (status : Option Status) (size : UInt32) (plans : Nat → SortPlan)
    (hpositive : 1 ≤ size.toNat) (hsize : (size.toNat : Int) ≤ i32Max) :
    (∀ keep, (listing keep db).Perm (db.jobs.rows.filter keep) ∧
      (listing keep db).Nodup ∧ (listing keep db).Pairwise listOrder) ∧
    Paginates (listing (ofQueue queue (status.getD .pending)) db) size.toNat
      (decodedTasks rows decode)
      (fun k => listTasks rows decode (plans k) (.ok db) queue
        ⟨status, UInt32.ofNat (k + 1), size⟩) ∧
    Paginates (listing (ofStatus (status.getD .pending)) db) size.toNat
      (fun listed => listed.mapM (taskRow rows))
      (fun k => listAllTasks rows (plans k) (.ok db)
        ⟨status, UInt32.ofNat (k + 1), size⟩) ∧
    ∀ filter : Filter,
      (filter.page ≠ 0 → (filter.rowsBefore : Int) ≤ i32Max →
        ∃ offset, filterOffsetI32 filter = .ok offset ∧
          offset.toInt = filter.rowsBefore) ∧
      (filter.page = 0 ∨ i32Max < (filter.rowsBefore : Int) →
        ∃ message, filterOffsetI32 filter =
          .error (.invalidArgument message)) := by
  refine ⟨?_, ?_, ?_, fun filter =>
    ⟨filterOffsetI32_ok, filterOffsetI32_error⟩⟩
  · intro keep
    exact ⟨List.perm_insertionSort listOrder _, listing_nodup keep db,
      List.pairwise_insertionSort listOrder _⟩
  · refine .of_pages hpositive piecewise_decodedTasks
      (fun _ _ => length_decodedTasks) ?_
    intro k hk
    obtain ⟨limit, offset, hlimit, hoffset, hlisted⟩ := listRows_page
      (plans k) (ofQueue queue (status.getD .pending)) db status hsize
      hpositive hk
    simp only [listTasks, listTasksRows, hlimit, hoffset, bind, Except.bind,
      pure, Except.pure, hlisted]
  · refine .of_pages hpositive (piecewise_mapM (taskRow rows))
      (fun _ _ => length_mapM) ?_
    intro k hk
    obtain ⟨limit, offset, hlimit, hoffset, hlisted⟩ := listRows_page
      (plans k) (ofStatus (status.getD .pending)) db status hsize hpositive
      hk
    simp only [listAllTasks, listAllTasksRows, hlimit, hoffset, bind,
      Except.bind, pure, Except.pure, hlisted]

def SortPlan.insertion : SortPlan where
  sort rows := rows.insertionSort listOrder
  perm rows := List.perm_insertionSort listOrder rows
  ordered rows := List.pairwise_insertionSort listOrder rows

/-- A pending row that no other column tells apart from its neighbours. -/
def listedRow (id : String) : JobRow :=
  ⟨[1], id, "queue", .pending, 0, 3, 0, none, none, none, none, 0, none, none⟩

/-- Three rows that differ in their ids only, two on a page: the tie is cut
between the pages, and each row is on one of them. -/
theorem pages_partition_listing_tied :
    let db : Db := ⟨⟨[listedRow "a", listedRow "b", listedRow "c"],
      by decide⟩, ∅⟩
    let page := fun k : Nat => listAllTasks TaskConversion.copying
      SortPlan.insertion (.ok db) ⟨none, UInt32.ofNat (k + 1), 2⟩
    page 2 = .ok [] ∧ ∃ pages, (List.range 2).mapM page = .ok pages ∧
      pages.flatten.map (fun task => task.parts.taskId) =
        [some "c", some "b", some "a"] := by
  intro db page
  obtain ⟨_, _, hpages, _⟩ := pages_partition_listing TaskConversion.copying
    (fun bytes => .ok bytes) db "queue" none 2 (fun _ => .insertion)
    (by decide) (by decide)
  have hcount : pageCount (listing (ofStatus .pending) db).length 2 = 2 := by
    decide +kernel
  have hread : ((listing (ofStatus .pending) db).mapM
      (taskRow TaskConversion.copying)).toOption.map
        (List.map fun task => task.parts.taskId) =
          some [some "c", some "b", some "a"] := by decide +kernel
  have hended := hpages.ended
  have hwhole := hpages.whole
  simp only [Option.getD_none, UInt32.reduceToNat, hcount] at hended hwhole
  refine ⟨hended (by decide), ?_⟩
  cases htasks : (listing (ofStatus .pending) db).mapM
      (taskRow TaskConversion.copying) with
  | error error =>
      rw [htasks] at hread
      cases hread
  | ok tasks =>
      rw [htasks] at hread
      obtain ⟨pages, hpages, hflat⟩ := (hwhole (by decide) tasks).mp htasks
      exact ⟨pages, hpages, hflat ▸ Option.some.inj hread⟩

end ApalisPostgres
