/-
Tables whose rows carry their own primary key.  A table owns the uniqueness
of its keys, so that looking a key up and holding a row are one fact, and a
statement is described by the rows it read and the rows it left.
-/
import Mathlib.Data.List.Nodup
import Mathlib.Data.List.Perm.Subperm

namespace RowStore

universe u v

/-- A finite table; `keyed` is its primary-key constraint. -/
structure Table (K : Type u) (R : Type v) (key : R → K) where
  rows : List R
  keyed : (rows.map key).Nodup

variable {K : Type u} {R : Type v} {key : R → K} {T : Type}

def Table.empty : Table K R key :=
  ⟨[], List.nodup_nil⟩

instance : EmptyCollection (Table K R key) := ⟨Table.empty⟩

variable [DecidableEq K]

/-- The row stored under a key. -/
def Table.get? (table : Table K R key) (k : K) : Option R :=
  table.rows.find? (fun row => decide (key row = k))

/-- Replace the row of the same key, or append a new one. -/
def Table.put (table : Table K R key) (row : R) : Table K R key where
  rows :=
    if key row ∈ table.rows.map key then
      table.rows.map (fun old => if key old = key row then row else old)
    else table.rows ++ [row]
  keyed := by
    split
    · have hsame : (table.rows.map
          (fun old => if key old = key row then row else old)).map key =
          table.rows.map key := by
        rw [List.map_map]
        apply List.map_congr_left
        intro old _
        by_cases heq : key old = key row <;> simp [heq]
      rw [hsame]
      exact table.keyed
    · rename_i hfresh
      rw [List.map_append, List.map_singleton, List.nodup_append']
      refine ⟨table.keyed, List.nodup_singleton _, ?_⟩
      simpa [List.disjoint_singleton] using hfresh

/-- Delete the row of a key. -/
def Table.erase (table : Table K R key) (k : K) : Table K R key where
  rows := table.rows.filter (fun row => decide (key row ≠ k))
  keyed := (List.filter_sublist.map key).nodup table.keyed

@[simp] theorem Table.get?_empty (k : K) :
    (∅ : Table K R key).get? k = none := rfl

theorem Table.get?_eq_some_iff (table : Table K R key) (k : K) (row : R) :
    table.get? k = some row ↔ row ∈ table.rows ∧ key row = k := by
  constructor
  · intro hfound
    refine ⟨List.mem_of_find?_eq_some hfound, ?_⟩
    simpa using List.find?_some hfound
  · rintro ⟨hmem, rfl⟩
    cases hfound : table.get? (key row) with
    | none =>
        have hnone := List.find?_eq_none.mp hfound row hmem
        simp at hnone
    | some other =>
        have hother : other ∈ table.rows := List.mem_of_find?_eq_some hfound
        have hkey : key other = key row := by
          simpa using List.find?_some hfound
        rw [(List.nodup_map_iff_inj_on table.keyed.of_map).mp table.keyed
          other hother row hmem hkey]

theorem Table.get?_of_mem {table : Table K R key} {row : R}
    (hmem : row ∈ table.rows) : table.get? (key row) = some row :=
  (table.get?_eq_some_iff _ _).mpr ⟨hmem, rfl⟩

theorem Table.mem_of_get? {table : Table K R key} {k : K} {row : R}
    (hget : table.get? k = some row) : row ∈ table.rows :=
  ((table.get?_eq_some_iff _ _).mp hget).1

theorem Table.key_of_get? {table : Table K R key} {k : K} {row : R}
    (hget : table.get? k = some row) : key row = k :=
  ((table.get?_eq_some_iff _ _).mp hget).2

theorem filter_find_of_nodup {rows : List R} (h : (rows.map key).Nodup) (k : K)
    (p : R → Bool) :
    (rows.filter fun row => decide (key row = k) && p row) =
      ((rows.find? fun row => decide (key row = k)).filter p).toList := by
  induction rows with
  | nil => rfl
  | cons row rest ih =>
      rw [List.map_cons, List.nodup_cons] at h
      by_cases hkey : key row = k
      · have hrest : (rest.filter fun other =>
            decide (key other = k) && p other) = [] := by
          rw [List.filter_eq_nil_iff]
          intro other hother hboth
          simp only [Bool.and_eq_true, decide_eq_true_eq] at hboth
          exact h.1 (List.mem_map.mpr
            ⟨other, hother, hboth.1.trans hkey.symm⟩)
        rw [List.filter_cons, hrest]
        cases hp : p row <;> simp [hkey, hp, Option.filter]
      · simpa [hkey] using ih h.2

/-- The rows of a key that pass a test are the row of the key, if it passes. -/
theorem Table.filter_key (table : Table K R key) (k : K) (p : R → Bool) :
    (table.rows.filter fun row => decide (key row = k) && p row) =
      ((table.get? k).filter p).toList :=
  filter_find_of_nodup table.keyed k p

theorem Table.get?_eq_none_iff (table : Table K R key) (k : K) :
    table.get? k = none ↔ ∀ row ∈ table.rows, key row ≠ k := by
  simp [Table.get?, List.find?_eq_none]

/-- A selection of one key takes the row of that key or nothing. -/
theorem Table.filter_of_get? {table : Table K R key} {k : K} {row : R}
    (hget : table.get? k = some row) (keep : R → Bool)
    (hkeep : ∀ other ∈ table.rows, keep other = true → key other = k) :
    table.rows.filter keep = if keep row then [row] else [] := by
  have honly : ∀ other ∈ table.rows, keep other = true → other = row := by
    intro other hother hkept
    have hsame := Table.get?_of_mem hother
    rw [hkeep other hother hkept, hget] at hsame
    exact (Option.some.inj hsame).symm
  split
  · rename_i hrow
    apply List.perm_singleton.mp
    rw [List.perm_ext_iff_of_nodup (table.keyed.of_map.filter _)
      (List.nodup_singleton row)]
    intro other
    rw [List.mem_filter, List.mem_singleton]
    constructor
    · rintro ⟨hother, hkept⟩
      exact honly other hother hkept
    · rintro rfl
      exact ⟨Table.mem_of_get? hget, hrow⟩
  · rename_i hrow
    apply List.filter_eq_nil_iff.mpr
    intro other hother hkept
    rw [honly other hother hkept] at hkept
    exact hrow hkept

theorem Table.mem_put (table : Table K R key) (row other : R) :
    other ∈ (table.put row).rows ↔
      other = row ∨ (other ∈ table.rows ∧ key other ≠ key row) := by
  by_cases hold : key row ∈ table.rows.map key
  · simp only [Table.put, hold, ↓reduceIte, List.mem_map]
    constructor
    · rintro ⟨old, hmem, rfl⟩
      by_cases heq : key old = key row
      · exact Or.inl (by simp [heq])
      · exact Or.inr (by simpa [heq] using hmem)
    · rintro (rfl | ⟨hmem, hne⟩)
      · obtain ⟨old, hmem, heq⟩ := List.mem_map.mp hold
        exact ⟨old, hmem, by simp [heq]⟩
      · exact ⟨other, hmem, by simp [hne]⟩
  · simp only [Table.put, hold, ↓reduceIte, List.mem_append,
      List.mem_singleton]
    constructor
    · rintro (hmem | rfl)
      · refine Or.inr ⟨hmem, ?_⟩
        intro heq
        exact hold (heq ▸ List.mem_map_of_mem hmem)
      · exact Or.inl rfl
    · rintro (rfl | ⟨hmem, _⟩)
      · exact Or.inr rfl
      · exact Or.inl hmem

theorem Table.get?_put (table : Table K R key) (row : R) (k : K) :
    (table.put row).get? k = if key row = k then some row else table.get? k := by
  by_cases heq : key row = k
  · rw [if_pos heq, Table.get?_eq_some_iff]
    exact ⟨(table.mem_put row row).mpr (Or.inl rfl), heq⟩
  · rw [if_neg heq]
    ext found
    rw [Table.get?_eq_some_iff, Table.get?_eq_some_iff, Table.mem_put]
    constructor
    · rintro ⟨rfl | ⟨hmem, _⟩, hkey⟩
      · exact absurd hkey heq
      · exact ⟨hmem, hkey⟩
    · rintro ⟨hmem, hkey⟩
      refine ⟨Or.inr ⟨hmem, ?_⟩, hkey⟩
      rw [hkey]
      exact Ne.symm heq

/-- A row under a key that is not stored is appended. -/
theorem Table.rows_put_of_fresh {table : Table K R key} {row : R}
    (hfresh : table.get? (key row) = none) :
    (table.put row).rows = table.rows ++ [row] := by
  have hnot : key row ∉ table.rows.map key := by
    intro hmem
    obtain ⟨old, hold, hkey⟩ := List.mem_map.mp hmem
    exact (table.get?_eq_none_iff _).mp hfresh old hold hkey
  simp only [Table.put, if_neg hnot]

/-- Writing a row where it already is changes nothing. -/
theorem Table.put_of_get? {table : Table K R key} {row : R}
    (hget : table.get? (key row) = some row) : table.put row = table := by
  have hmem : key row ∈ table.rows.map key :=
    List.mem_map_of_mem (Table.mem_of_get? hget)
  have hsame : table.rows.map
      (fun old => if key old = key row then row else old) = table.rows := by
    refine (List.map_congr_left ?_).trans (List.map_id _)
    intro old hold
    by_cases hkey : key old = key row
    · have hfound := Table.get?_of_mem hold
      rw [hkey, hget] at hfound
      simpa [hkey] using hfound
    · simp [hkey]
  unfold Table.put
  congr
  rw [if_pos hmem, hsame]

theorem Table.get?_erase (table : Table K R key) (dead k : K) :
    (table.erase dead).get? k = if dead = k then none else table.get? k := by
  by_cases heq : dead = k
  · rw [if_pos heq, Table.get?_eq_none_iff]
    intro row hmem
    simp only [Table.erase, List.mem_filter, decide_eq_true_eq] at hmem
    exact heq ▸ hmem.2
  · rw [if_neg heq]
    ext found
    rw [Table.get?_eq_some_iff, Table.get?_eq_some_iff]
    simp only [Table.erase, List.mem_filter, decide_eq_true_eq]
    constructor
    · rintro ⟨⟨hmem, _⟩, hkey⟩
      exact ⟨hmem, hkey⟩
    · rintro ⟨hmem, hkey⟩
      exact ⟨⟨hmem, hkey ▸ Ne.symm heq⟩, hkey⟩

/-- Keep, rewrite or drop every row in place, under its own key. -/
def Table.retain (table : Table K R key) (keep : R → Option R)
    (hkeep : ∀ {row kept}, keep row = some kept → key kept = key row) :
    Table K R key where
  rows := table.rows.filterMap keep
  keyed := by
    have hsub : ((table.rows.filterMap keep).map key).Sublist
        (table.rows.map key) := by
      induction table.rows with
      | nil => simp
      | cons row rest ih =>
          cases hrow : keep row with
          | none => simpa [hrow] using ih.cons (key row)
          | some kept =>
              simp only [List.filterMap_cons, hrow, List.map_cons,
                hkeep hrow]
              exact ih.cons_cons (key row)
    exact hsub.nodup table.keyed

theorem Table.get?_retain (table : Table K R key) (keep : R → Option R)
    (hkeep : ∀ {row kept}, keep row = some kept → key kept = key row)
    (k : K) :
    (table.retain keep hkeep).get? k = (table.get? k).bind keep := by
  ext kept
  rw [Table.get?_eq_some_iff, Option.bind_eq_some_iff]
  simp only [Table.retain, List.mem_filterMap, Table.get?_eq_some_iff]
  constructor
  · rintro ⟨⟨row, hrow, hkept⟩, hkey⟩
    exact ⟨row, ⟨hrow, hkeep hkept ▸ hkey⟩, hkept⟩
  · rintro ⟨row, ⟨hrow, hkey⟩, hkept⟩
    exact ⟨⟨row, hrow, hkept⟩, (hkeep hkept).trans hkey⟩

/-- One row of a statement's effect: the row found under a key and the row
left there.  The tag says what kind of effect it is. -/
structure RowChange (K : Type u) (R : Type v) (T : Type) where
  key : K
  tag : T
  before : Option R
  after : Option R

/-- Write one change. -/
def Table.applyChange (table : Table K R key) (change : RowChange K R T) :
    Table K R key :=
  match change.after with
  | some row => table.put row
  | none => table.erase change.key

/-- Write the changes of one statement in order. -/
def Table.applyChanges (table : Table K R key)
    (changes : List (RowChange K R T)) : Table K R key :=
  changes.foldl Table.applyChange table

/-- A change read what the table stores and keeps the row under its key. -/
structure RowChange.Reads (change : RowChange K R T) (table : Table K R key) :
    Prop where
  before_eq : change.before = table.get? change.key
  key_eq : ∀ row, change.after = some row → key row = change.key

@[simp] theorem Table.applyChanges_nil (table : Table K R key) :
    table.applyChanges ([] : List (RowChange K R T)) = table := rfl

@[simp] theorem Table.applyChanges_cons (table : Table K R key)
    (change : RowChange K R T) (changes : List (RowChange K R T)) :
    table.applyChanges (change :: changes) =
      (table.applyChange change).applyChanges changes := rfl

theorem Table.get?_applyChange (table : Table K R key)
    {change : RowChange K R T}
    (hkey : ∀ row, change.after = some row → key row = change.key) (k : K) :
    (table.applyChange change).get? k =
      if change.key = k then change.after else table.get? k := by
  cases hafter : change.after with
  | none => simp [Table.applyChange, hafter, Table.get?_erase]
  | some row =>
      simp [Table.applyChange, hafter, Table.get?_put, hkey row hafter]

/-- Tables that agree under a key agree there after the same changes. -/
theorem Table.get?_applyChanges_congr {first second : Table K R key}
    {changes : List (RowChange K R T)}
    (hkeys : ∀ change ∈ changes, ∀ row, change.after = some row →
      key row = change.key)
    {k : K} (h : first.get? k = second.get? k) :
    (first.applyChanges changes).get? k =
      (second.applyChanges changes).get? k := by
  induction changes generalizing first second with
  | nil => exact h
  | cons change changes ih =>
      apply ih fun other hother => hkeys other (List.mem_cons_of_mem _ hother)
      have hchange := hkeys change List.mem_cons_self
      rw [Table.get?_applyChange first hchange,
        Table.get?_applyChange second hchange, h]

/-- A key no change names keeps its row. -/
theorem Table.get?_applyChanges_of_not_mem (table : Table K R key)
    {changes : List (RowChange K R T)}
    (hkeys : ∀ change ∈ changes, ∀ row, change.after = some row →
      key row = change.key)
    {k : K} (hnot : k ∉ changes.map RowChange.key) :
    (table.applyChanges changes).get? k = table.get? k := by
  induction changes generalizing table with
  | nil => rfl
  | cons change changes ih =>
      simp only [List.map_cons, List.mem_cons, not_or] at hnot
      rw [Table.applyChanges_cons,
        ih _ (fun other hother => hkeys other (List.mem_cons_of_mem _ hother))
          hnot.2,
        Table.get?_applyChange table (hkeys change List.mem_cons_self),
        if_neg (Ne.symm hnot.1)]

/-- When no key is changed twice, every change leaves its row. -/
theorem Table.get?_applyChanges_of_mem (table : Table K R key)
    {changes : List (RowChange K R T)}
    (hkeys : ∀ change ∈ changes, ∀ row, change.after = some row →
      key row = change.key)
    (hnodup : (changes.map RowChange.key).Nodup)
    {change : RowChange K R T} (hmem : change ∈ changes) :
    (table.applyChanges changes).get? change.key = change.after := by
  induction changes generalizing table with
  | nil => simp at hmem
  | cons head tail ih =>
      have htail : ∀ other ∈ tail, ∀ row, other.after = some row →
          key row = other.key :=
        fun other hother => hkeys other (List.mem_cons_of_mem _ hother)
      simp only [List.map_cons, List.nodup_cons] at hnodup
      rw [Table.applyChanges_cons]
      rcases List.mem_cons.mp hmem with rfl | hmem
      · rw [Table.get?_applyChanges_of_not_mem _ htail hnodup.1,
          Table.get?_applyChange table (hkeys change List.mem_cons_self),
          if_pos rfl]
      · exact ih _ htail hnodup.2 hmem

/-- Either some change names the key and decides its row, or the row stays. -/
theorem Table.get?_applyChanges_cases (table : Table K R key)
    {changes : List (RowChange K R T)}
    (hkeys : ∀ change ∈ changes, ∀ row, change.after = some row →
      key row = change.key)
    (hnodup : (changes.map RowChange.key).Nodup) (k : K) :
    (∃ change ∈ changes, change.key = k ∧
        (table.applyChanges changes).get? k = change.after) ∨
      (k ∉ changes.map RowChange.key ∧
        (table.applyChanges changes).get? k = table.get? k) := by
  by_cases hmem : k ∈ changes.map RowChange.key
  · obtain ⟨change, hchange, rfl⟩ := List.mem_map.mp hmem
    exact Or.inl ⟨change, hchange, rfl,
      table.get?_applyChanges_of_mem hkeys hnodup hchange⟩
  · exact Or.inr ⟨hmem, table.get?_applyChanges_of_not_mem hkeys hmem⟩

/-- The changes of an UPDATE: every selected row is rewritten in place. -/
def updateChanges (key : R → K) (tag : T) (rewrite : R → R) (selected : List R) :
    List (RowChange K R T) :=
  selected.map fun row => ⟨key row, tag, some row, some (rewrite row)⟩

omit [DecidableEq K] in
theorem mem_updateChanges {tag : T} {rewrite : R → R} {selected : List R}
    {change : RowChange K R T} :
    change ∈ updateChanges key tag rewrite selected ↔
      ∃ row ∈ selected,
        change = ⟨key row, tag, some row, some (rewrite row)⟩ := by
  simp only [updateChanges, List.mem_map]
  constructor
  · rintro ⟨row, hrow, rfl⟩
    exact ⟨row, hrow, rfl⟩
  · rintro ⟨row, hrow, rfl⟩
    exact ⟨row, hrow, rfl⟩

omit [DecidableEq K] in
theorem updateChanges_keys (tag : T) (rewrite : R → R) (selected : List R) :
    (updateChanges key tag rewrite selected).map RowChange.key =
      selected.map key := by
  simp [updateChanges]

/-- An UPDATE rewrites the rows it selected in place. -/
theorem Table.rows_applyChanges_update {tag : T} {rewrite : R → R}
    (hrewrite : ∀ row, key (rewrite row) = key row) {selected : List R}
    (table : Table K R key) (hselected : ∀ row ∈ selected, row ∈ table.rows)
    (hnodup : (selected.map key).Nodup) :
    (table.applyChanges (updateChanges key tag rewrite selected)).rows =
      table.rows.map fun row =>
        if key row ∈ selected.map key then rewrite row else row := by
  induction selected generalizing table with
  | nil => simp [updateChanges]
  | cons row rest ih =>
      rw [List.map_cons, List.nodup_cons] at hnodup
      have hrow := hselected row List.mem_cons_self
      have hput : (table.put (rewrite row)).rows = table.rows.map fun old =>
          if key old = key row then rewrite row else old := by
        have hmem : key row ∈ table.rows.map key := List.mem_map_of_mem hrow
        simp only [Table.put, hrewrite, if_pos hmem]
      have hrest : ∀ other ∈ rest, other ∈ (table.put (rewrite row)).rows := by
        intro other hother
        refine (table.mem_put _ _).mpr (Or.inr
          ⟨hselected other (List.mem_cons_of_mem _ hother), ?_⟩)
        rw [hrewrite]
        intro heq
        exact hnodup.1 (heq ▸ List.mem_map_of_mem hother)
      have htail := ih (table.put (rewrite row)) hrest hnodup.2
      change ((table.put (rewrite row)).applyChanges
        (updateChanges key tag rewrite rest)).rows = _
      rw [htail, hput, List.map_map]
      apply List.map_congr_left
      intro old hold
      by_cases hkey : key old = key row
      · have hsame := Table.get?_of_mem hold
        rw [hkey, Table.get?_of_mem hrow] at hsame
        obtain rfl := Option.some.inj hsame
        have hlast : key row ∉ rest.map key := hnodup.1
        simp only [Function.comp_apply, if_pos, hrewrite, if_neg hlast,
          List.map_cons, List.mem_cons, true_or]
      · simp [hkey]

omit [DecidableEq K] in
/-- A selection out of a table, in any order, names no key twice. -/
theorem Table.keys_nodup_of_subperm (table : Table K R key) {selected : List R}
    (hsub : selected.Subperm table.rows) : (selected.map key).Nodup := by
  obtain ⟨ordered, hperm, hsublist⟩ := hsub
  exact ((hperm.map key).nodup_iff).mp ((hsublist.map key).nodup table.keyed)

end RowStore
