import Mathlib.Algebra.Order.Ring.Nat
import Mathlib.Data.List.Basic
import Syinx.Library.Runs

/-!
# The result table

`SyMysqlConPool::MysqlCarryOutQuery` appends the rows of a result to `m_vecReslut`, and
`GetInt`, `GetString` and `GetFloat` look a cell up by a row and a column counted from one.
They compare with `GetRows`, the number of rows, and with `GetCols`, the length of the first
row, both cut down to an `int`; an `int` that is compared with a `uint32_t` is read without
its sign.

A field comes from `mysql_fetch_row` as a pointer to bytes that are followed by a zero, or as
`NULL`; the strings of the table are made from the pointers. The loop over the fields of a row
counts with an `int`, and does not get past the largest one. Rows come until there are no more.
`atoi` and `atof` are what the standard library has; `GetDouble` does nothing.

## What is proved

* `carryOutQuery_eq` — what a query does to the table.
* `access_isSome_iff`, `inBounds_iff` — an accessor stays inside the table exactly where the
  table has the cell.
* `inBounds_of_wide`, `wide_of_inBounds` — all accesses are in bounds where no row is shorter
  than the first one.
* `inBounds_along_iff` — which runs keep all accesses in bounds.
-/

namespace Syinx.Mysql

open Syinx.Library

/-! ### Results -/

/-- What `mysql_store_result` has: the number of the fields, and the rows with their fields. -/
structure ResultSet where
  /-- `mysql_num_fields`. -/
  fields : UInt32
  /-- What `mysql_fetch_row` returns, one after the other; a field that is `NULL` is `none`. -/
  rows : List (List (Option (List UInt8)))
  width : ∀ row ∈ rows, row.length = fields.toNat

/-- `m_vecReslut`. -/
abbrev Table := List (List (List UInt8))

/-- The `std::string` made from a pointer to these bytes and a zero. -/
def cString (bs : List UInt8) : List UInt8 := bs.takeWhile (· ≠ 0)

/-- What is pushed for a field. -/
def fieldString : Option (List UInt8) → List UInt8
  | some bs => cString bs
  | none => []

/-- The loop over the fields of a row, with `Index` and the fields left; `none` if `Index`
leaves the row or the `int`. -/
def pushFields (row : List (Option (List UInt8))) (index : ℕ) :
    ℕ → List (List UInt8) → Option (List (List UInt8))
  | 0, tarData => some tarData
  | left + 1, tarData =>
    match row[index]? with
    | none => none
    | some f =>
      if index + 1 < 2 ^ 31 then pushFields row (index + 1) left (tarData ++ [fieldString f])
      else none

/-- The loop over the rows. -/
def pushRows (fields : UInt32) (table : Table) : List (List (Option (List UInt8))) → Option Table
  | [] => some table
  | row :: rows =>
    (pushFields row 0 fields.toNat []).bind fun tarData => pushRows fields (table ++ [tarData]) rows

/-- A call of `MysqlCarryOutQuery`. -/
structure QueryCall where
  /-- `mysql` is not null. -/
  handle : Bool
  /-- `IsSelect`. -/
  isSelect : Bool
  /-- `mysql_query` returns `0`. -/
  query : Bool
  /-- `mysql_store_result`; `none` is a null pointer. -/
  result : Option ResultSet

/-- `MysqlCarryOutQuery`: what it returns, and the table after it; `none` if the loop over the
fields leaves its `int`. -/
def carryOutQuery (table : Table) (q : QueryCall) : Option (Bool × Table) :=
  if q.handle = false then some (false, table)
  else if q.query = false then some (false, table)
  else if q.isSelect then
    match q.result with
    | none => some (false, table)
    | some rs => (pushRows rs.fields table rs.rows).map fun t => (true, t)
  else some (true, table)

/-- `Clear`. -/
def Table.clear (_ : Table) : Table := []

/-! ### Accessors -/

/-- `GetRows`. -/
def Table.getRows (t : Table) : Int32 := .ofNat t.length

/-- The number of entries of the first row. -/
def Table.cols : Table → ℕ
  | [] => 0
  | row :: _ => row.length

/-- `GetCols`. -/
def Table.getCols (t : Table) : Int32 := .ofNat t.cols

/-- The guard of the accessors. -/
def Table.Guard (t : Table) (row col : UInt32) : Prop :=
  (0 < row ∧ row ≤ t.getRows.toUInt32) ∧ (0 < col ∧ col ≤ t.getCols.toUInt32)

instance (t : Table) (row col : UInt32) : Decidable (t.Guard row col) :=
  inferInstanceAs (Decidable ((_ ∧ _) ∧ (_ ∧ _)))

/-- `m_vecReslut[row][col]`; `none` outside of the table. -/
def Table.cell (t : Table) (row col : UInt32) : Option (List UInt8) :=
  t[row.toNat]?.bind fun r => r[col.toNat]?

/-- What the accessors have in common: `*out`, where they leave `missing` if the guard refuses
the call; `none` if the access is out of bounds. -/
def Table.access {β : Type} (conv : List UInt8 → β) (missing : β) (t : Table) (row col : UInt32) :
    Option β :=
  if t.Guard row col then (t.cell (row - 1) (col - 1)).map conv else some missing

/-- `GetInt`. -/
def Table.getInt (atoi : List UInt8 → Int32) (t : Table) (row col : UInt32) : Option Int32 :=
  t.access atoi (-1) row col

/-- `GetString`, with what is in `*out` before. -/
def Table.getString (t : Table) (row col : UInt32) (out : List UInt8) : Option (List UInt8) :=
  t.access id out row col

/-- `GetFloat`. -/
def Table.getFloat (atof : List UInt8 → Float) (t : Table) (row col : UInt32) : Option Float32 :=
  t.access (fun s => (atof s).toFloat32) (-0.1) row col

/-! ### Runs -/

/-- What changes the table. -/
inductive TableCall where
  /-- `MysqlCarryOutQuery`. -/
  | query (q : QueryCall)
  /-- `Clear`. -/
  | clear

/-- A call. -/
def Table.step (t : Table) : TableCall → Option Table
  | .query q => (carryOutQuery t q).map Prod.snd
  | .clear => some t.clear

/-- The guard lets a call through only where the row has the column. -/
def Table.InBounds (t : Table) : Prop :=
  ∀ row col, t.Guard row col →
    ∃ r, t[row.toNat - 1]? = some r ∧ col.toNat - 1 < r.length

/-! ### What a query stores -/

/-- The result a query gets to store. -/
def QueryCall.stored (q : QueryCall) : Option ResultSet :=
  if q.handle = true ∧ q.query = true ∧ q.isSelect = true then q.result else none

/-- The loop over the fields of each row gets through. -/
def ResultSet.Countable (rs : ResultSet) : Prop := rs.rows = [] ∨ rs.fields.toNat < 2 ^ 31

instance (rs : ResultSet) : Decidable rs.Countable := inferInstanceAs (Decidable (_ ∨ _))

theorem pushFields_eq {row : List (Option (List UInt8))} {left : ℕ} (hlen : row.length < 2 ^ 31)
    (index : ℕ) (hi : index + left = row.length) (tarData : List (List UInt8)) :
    pushFields row index left tarData = some (tarData ++ (row.drop index).map fieldString) := by
  induction left generalizing index tarData with
  | zero =>
    have hdrop : row.drop index = [] := List.drop_of_length_le (by omega)
    rw [pushFields, hdrop, List.map_nil, List.append_nil]
  | succ left ih =>
    have hlt : index < row.length := by omega
    unfold pushFields
    simp only [List.getElem?_eq_getElem hlt]
    rw [if_pos (by omega), ih (index + 1) (by omega), List.drop_eq_getElem_cons hlt, List.map_cons,
      List.append_assoc, List.singleton_append]

theorem pushFields_eq_none {row : List (Option (List UInt8))} {left : ℕ} (index : ℕ)
    (hi : index + left = row.length) (hlen : 2 ^ 31 ≤ row.length) (hlt : index < 2 ^ 31)
    (tarData : List (List UInt8)) : pushFields row index left tarData = none := by
  induction left generalizing index tarData with
  | zero => omega
  | succ left ih =>
    unfold pushFields
    simp only [List.getElem?_eq_getElem (show index < row.length by omega)]
    split_ifs with h
    · exact ih (index + 1) (by omega) h _
    · rfl

/-- The rows of a result are appended, each field as its string. -/
theorem pushRows_eq (rs : ResultSet) (table : Table) :
    pushRows rs.fields table rs.rows =
      if rs.Countable then some (table ++ rs.rows.map fun row => row.map fieldString) else none := by
  obtain ⟨fields, rows, hwidth⟩ := rs
  induction rows generalizing table with
  | nil => simp [pushRows, ResultSet.Countable]
  | cons row rows ih =>
    have hrow : row.length = fields.toNat := hwidth row List.mem_cons_self
    have hrows : ∀ r ∈ rows, r.length = fields.toNat := fun r hr =>
      hwidth r (List.mem_cons_of_mem row hr)
    have hzero : 0 + fields.toNat = row.length := by omega
    dsimp only at ih ⊢
    unfold pushRows
    by_cases hf : fields.toNat < 2 ^ 31
    · have hloop := pushFields_eq (by omega) 0 hzero []
      rw [hloop, Option.bind_some, ih _ hrows, if_pos (.inr hf), if_pos (.inr hf)]
      simp
    · have hloop := pushFields_eq_none 0 hzero (by omega) (by omega) []
      rw [hloop, Option.bind_none, if_neg]
      rintro (hnil | hlt)
      · cases hnil
      · exact hf hlt

/-- The rows of a result, as they are stored. -/
def ResultSet.strings (rs : ResultSet) : Table := rs.rows.map fun row => row.map fieldString

theorem ResultSet.length_of_mem_strings {rs : ResultSet} {row : List (List UInt8)}
    (h : row ∈ rs.strings) : row.length = rs.fields.toNat := by
  obtain ⟨r, hr, rfl⟩ := List.mem_map.mp h
  rw [List.length_map]
  exact rs.width r hr

/-- What a query does to the table. -/
theorem carryOutQuery_eq (t : Table) (q : QueryCall) :
    carryOutQuery t q =
      match q.stored with
      | some rs => if rs.Countable then some (true, t ++ rs.strings) else none
      | none => some (q.handle && q.query && !q.isSelect, t) := by
  obtain ⟨handle, isSelect, query, result⟩ := q
  unfold carryOutQuery QueryCall.stored
  cases handle <;> cases query <;> cases isSelect <;> cases result <;> try rfl
  simp only [Bool.true_eq_false, if_false, if_true, and_self, pushRows_eq]
  split_ifs <;> rfl

/-- What a call can do to the table. -/
theorem Table.step_cases {t t' : Table} {c : TableCall} (h : t.step c = some t') :
    (c = .clear ∧ t' = []) ∨
    (∃ q, c = .query q ∧ q.stored = none ∧ t' = t) ∨
    (∃ q rs, c = .query q ∧ q.stored = some rs ∧ rs.Countable ∧ t' = t ++ rs.strings) := by
  cases c with
  | clear => cases h; exact .inl ⟨rfl, rfl⟩
  | query q =>
    rw [Table.step, carryOutQuery_eq] at h
    cases hs : q.stored with
    | none =>
      simp only [hs] at h
      cases h
      exact .inr (.inl ⟨q, rfl, hs, rfl⟩)
    | some rs =>
      simp only [hs] at h
      split_ifs at h with hc
      · cases h
        exact .inr (.inr ⟨q, rs, rfl, hs, hc, rfl⟩)
      · cases h

/-! ### Accesses -/

theorem toNat_toUInt32_ofNat (n : ℕ) : (Int32.ofNat n).toUInt32.toNat = n % 2 ^ 32 := by
  rw [Int32.toUInt32_ofNat', UInt32.toNat_ofNat']

/-- A number that fits in a `uint32_t`. -/
theorem toNat_ofNat_of_lt {n : ℕ} (h : n < 2 ^ 32) : (UInt32.ofNat n).toNat = n := by
  rw [UInt32.toNat_ofNat', Nat.mod_eq_of_lt h]

section Accesses

variable {t : Table} {row col : UInt32}

theorem Table.guard_iff :
    t.Guard row col ↔ (0 < row.toNat ∧ row.toNat ≤ t.length % 2 ^ 32) ∧
      (0 < col.toNat ∧ col.toNat ≤ t.cols % 2 ^ 32) := by
  unfold Table.Guard Table.getRows Table.getCols
  simp only [UInt32.lt_iff_toNat_lt, UInt32.le_iff_toNat_le, toNat_toUInt32_ofNat, UInt32.toNat_zero]

/-- The predecessor of a row or a column that the guard lets through. -/
theorem toNat_sub_one {n : UInt32} (h : 0 < n.toNat) : (n - 1).toNat = n.toNat - 1 := by
  rw [UInt32.toNat_sub_of_le]
  · rfl
  · rw [UInt32.le_iff_toNat_le]
    exact h

/-- An accessor stays inside the table where the table has the cell. -/
theorem Table.access_isSome_iff {β : Type} (conv : List UInt8 → β) (missing : β) (t : Table)
    (row col : UInt32) :
    (t.access conv missing row col).isSome ↔
      (t.Guard row col → ∃ r, t[row.toNat - 1]? = some r ∧ col.toNat - 1 < r.length) := by
  unfold Table.access
  split_ifs with hg
  · obtain ⟨⟨hrow, -⟩, hcol, -⟩ := Table.guard_iff.mp hg
    rw [Option.isSome_map, Table.cell, toNat_sub_one hrow, toNat_sub_one hcol]
    cases hr : t[row.toNat - 1]? with
    | none => simp [hg]
    | some r => simp [hg]
  · simp [hg]

/-- All accesses are in bounds exactly if no accessor leaves the table, whatever it is asked. -/
theorem Table.inBounds_iff (t : Table) :
    t.InBounds ↔ ∀ atoi atof row col out, (t.getInt atoi row col).isSome ∧
      (t.getString row col out).isSome ∧ (t.getFloat atof row col).isSome := by
  constructor
  · intro h atoi atof row col out
    refine ⟨?_, ?_, ?_⟩
    all_goals
      apply (Table.access_isSome_iff _ _ t row col).mpr
      exact h row col
  · intro h row col
    have hstring := (h (fun _ => 0) (fun _ => 0) row col []).2.1
    exact (Table.access_isSome_iff _ _ t row col).mp hstring

/-- No row is shorter than the first one. -/
def Table.Wide (t : Table) : Prop := ∀ row ∈ t, t.cols ≤ row.length

/-- The entries of a row can be counted with an `int`. -/
def Table.Counted (t : Table) : Prop := ∀ row ∈ t, row.length < 2 ^ 31

theorem Table.inBounds_of_wide (h : t.Wide) : t.InBounds := by
  intro row col hg
  obtain ⟨⟨hrow, hrow'⟩, hcol, hcol'⟩ := Table.guard_iff.mp hg
  have hlt : row.toNat - 1 < t.length := by
    have := Nat.mod_le t.length (2 ^ 32)
    omega
  refine ⟨_, List.getElem?_eq_getElem hlt, ?_⟩
  have hwide := h _ (List.getElem_mem hlt)
  have := Nat.mod_le t.cols (2 ^ 32)
  omega

theorem Table.Counted.cols_lt (h : t.Counted) : t.cols < 2 ^ 31 := by
  cases t with
  | nil => simp [Table.cols]
  | cons row t => exact h row List.mem_cons_self

theorem Table.wide_of_inBounds (h : t.InBounds) (hc : t.Counted) (hlen : t.length < 2 ^ 32) :
    t.Wide := by
  intro r hr
  obtain ⟨i, hi, rfl⟩ := List.getElem_of_mem hr
  have hcols := hc.cols_lt
  by_contra hlt
  have hrow : (UInt32.ofNat (i + 1)).toNat = i + 1 := toNat_ofNat_of_lt (by omega)
  have hcol : (UInt32.ofNat t.cols).toNat = t.cols := toNat_ofNat_of_lt (by omega)
  obtain ⟨r', hr', hcell⟩ := h (.ofNat (i + 1)) (.ofNat t.cols)
    (Table.guard_iff.mpr (by rw [hrow, hcol]; omega))
  rw [hrow, Nat.add_sub_cancel, List.getElem?_eq_getElem hi] at hr'
  rw [hcol] at hcell
  cases hr'
  omega

end Accesses

/-! ### Runs -/

/-- The condition: a query that stores rows has as many fields as there are columns. -/
def TableCall.Fits (t : Table) : TableCall → Prop
  | .query q => ∀ rs, q.stored = some rs → rs.rows = [] ∨ t.cols ≤ rs.fields.toNat
  | .clear => True

section Runs

variable {t t' : Table} {c : TableCall}

theorem Table.Counted.step (h : t.Counted) (hst : t.step c = some t') : t'.Counted := by
  obtain ⟨-, rfl⟩ | ⟨q, -, -, rfl⟩ | ⟨q, rs, -, -, hcount, rfl⟩ := Table.step_cases hst
  · exact List.forall_mem_nil _
  · exact h
  · intro row hrow
    obtain hrow | hrow := List.mem_append.mp hrow
    · exact h row hrow
    · rw [ResultSet.length_of_mem_strings hrow]
      obtain hnil | hlt := hcount
      · rw [ResultSet.strings, hnil] at hrow
        cases hrow
      · exact hlt

/-- Appending a result leaves no row shorter than the first one exactly if it fits. -/
theorem Table.wide_append_iff (h : t.Wide) (rs : ResultSet) :
    Table.Wide (t ++ rs.strings) ↔ rs.rows = [] ∨ t.cols ≤ rs.fields.toNat := by
  cases t with
  | nil =>
    refine iff_of_true (fun row hrow => ?_) (.inr (Nat.zero_le _))
    rw [List.nil_append] at hrow ⊢
    have hcols : Table.cols rs.strings ≤ rs.fields.toNat := by
      cases hs : rs.strings with
      | nil => exact Nat.zero_le _
      | cons first rest =>
        exact (rs.length_of_mem_strings (hs ▸ List.mem_cons_self)).le
    rw [rs.length_of_mem_strings hrow]
    exact hcols
  | cons first t =>
    constructor
    · intro hwide
      by_cases hnil : rs.rows = []
      · exact .inl hnil
      · obtain ⟨row, hrow⟩ := List.exists_mem_of_ne_nil rs.rows hnil
        have hmem : row.map fieldString ∈ rs.strings := List.mem_map_of_mem hrow
        rw [← rs.length_of_mem_strings hmem]
        exact .inr (hwide _ (List.mem_append_right _ hmem))
    · intro hfits row hrow
      obtain hrow | hrow := List.mem_append.mp hrow
      · exact h row hrow
      · obtain hnil | hle := hfits
        · rw [ResultSet.strings, hnil] at hrow
          cases hrow
        · rw [rs.length_of_mem_strings hrow]
          exact hle

theorem Table.Wide.step_iff (h : t.Wide) (hst : t.step c = some t') :
    t'.Wide ↔ TableCall.Fits t c := by
  obtain ⟨rfl, rfl⟩ | ⟨q, rfl, hs, rfl⟩ | ⟨q, rs, rfl, hs, -, rfl⟩ := Table.step_cases hst
  · exact iff_of_true (List.forall_mem_nil _) trivial
  · apply iff_of_true h
    intro rs hrs
    rw [hs] at hrs
    cases hrs
  · rw [Table.wide_append_iff h]
    unfold TableCall.Fits
    simp [hs]

end Runs

/-- **Which runs keep all accesses in bounds**: those in which no query stores rows with fewer
fields than the table has columns, and no others as long as the rows can be counted with 32
bits. -/
theorem inBounds_along_iff (cs : List TableCall) :
    (Guarded Table.step TableCall.Fits [] cs → Along Table.step Table.InBounds [] cs) ∧
      (Along Table.step (fun t => t.length < 2 ^ 32) [] cs → Along Table.step Table.InBounds [] cs →
        Guarded Table.step TableCall.Fits [] cs) := by
  have hempty : Table.Wide [] := List.forall_mem_nil _
  have hcounted : Table.Counted [] := List.forall_mem_nil _
  constructor
  · intro hg
    exact Along.of_guarded (fun t c t' h hf hst => (h.step_iff hst).mpr hf)
      (fun t h => Table.inBounds_of_wide h) hempty hg
  · intro hlen hin
    have hwide : Along Table.step Table.Wide [] cs := by
      refine Along.strengthen (P := fun _ => True) (fun t c t' _ h _ hst => h.step hst)
        (fun t hc h => ?_) hcounted (fun _ _ => trivial) (hin.and hlen)
      exact Table.wide_of_inBounds h.1 hc h.2
    exact (along_iff_guarded (I := Table.Counted) (fun t c t' h hst => h.step hst)
      (fun t c t' _ h hst => h.step_iff hst) hcounted hempty).mp hwide

/-- A result of one row with three fields. -/
def threeFields : ResultSet := ⟨3, [[some [49], some [50], none]], by decide⟩

/-- A result of one row with one field. -/
def oneField : ResultSet := ⟨1, [[some [52]]], by decide⟩

/-- After a result with three fields and one with one field, `GetString(2, 3)` is let through
and reads beyond the end of the second row. -/
theorem not_inBounds_twoResults :
    ∃ t, exec Table.step [] [.query ⟨true, true, true, some threeFields⟩,
        .query ⟨true, true, true, some oneField⟩] = some t ∧
      t.Guard 2 3 ∧ t.getString 2 3 [] = none ∧ ¬ t.InBounds := by
  refine ⟨_, rfl, by decide, rfl, fun h => ?_⟩
  obtain ⟨r, hr, hlt⟩ := h 2 3 (by decide)
  cases hr
  exact absurd hlt (by decide)

end Syinx.Mysql
