import Mathlib.Data.List.GetD
import Mathlib.Data.List.TakeWhile
import Syinx.Mysql.Table

/-!
# Reading a result back

What the accessors find after a `Clear` and one query. The strings of the table end at the
first zero byte of a field, as `mysql_fetch_lengths` is not asked, and `GetRows` is an `int`.

## What is proved

* `cString_eq_self_iff` — which fields are stored with all their bytes.
* `getString_strings` — what `GetString` reads for a field.
* `readBack_iff` — which queries read back exactly.
-/

namespace Syinx.Mysql

variable {rs : ResultSet}

/-- Field `col` of row `row`, both counted from one. -/
def ResultSet.field (rs : ResultSet) (row col : UInt32) : Option (List UInt8) :=
  (rs.rows.getD (row.toNat - 1) []).getD (col.toNat - 1) none

/-- The row and the column are there. -/
def ResultSet.InRange (rs : ResultSet) (row col : UInt32) : Prop :=
  (0 < row.toNat ∧ row.toNat ≤ rs.rows.length) ∧ (0 < col.toNat ∧ col.toNat ≤ rs.fields.toNat)

/-- The table is the result, for those who use the accessors. -/
structure ReadsAs (t : Table) (rs : ResultSet) : Prop where
  rows : t.getRows.toInt = rs.rows.length
  cols : t.getCols.toInt = if rs.rows = [] then 0 else (rs.fields.toNat : ℤ)
  /-- `GetString` has all bytes of a field, and none for `NULL`. -/
  strings : ∀ row col, rs.InRange row col →
    ∀ out, t.getString row col out = some ((rs.field row col).getD [])

/-- What `MysqlCarryOutQuery` is for, on a table that has just been cleared. -/
structure ReadBack (t : Table) (q : QueryCall) : Prop where
  read : ∀ rs t', q.stored = some rs → carryOutQuery t.clear q = some (true, t') → ReadsAs t' rs
  /-- When it returns false, the table is unchanged. -/
  unchanged : ∀ u u', carryOutQuery u q = some (false, u') → u' = u

/-- No field has a zero byte. -/
def ResultSet.ZeroFree (rs : ResultSet) : Prop :=
  ∀ row ∈ rs.rows, ∀ f ∈ row, ∀ bs, f = some bs → 0 ∉ bs

/-! ### Fields -/

/-- A field is stored with all its bytes exactly if none of them is zero. -/
theorem cString_eq_self_iff (bs : List UInt8) : cString bs = bs ↔ 0 ∉ bs := by
  rw [cString, List.takeWhile_eq_self_iff]
  simp only [ne_eq, decide_not, Bool.not_eq_eq_eq_not, Bool.not_true, decide_eq_false_iff_not]
  constructor
  · intro h hmem
    exact h 0 hmem rfl
  · intro h b hb hzero
    exact h (hzero ▸ hb)

theorem fieldString_eq_iff (f : Option (List UInt8)) :
    fieldString f = f.getD [] ↔ ∀ bs, f = some bs → 0 ∉ bs := by
  cases f with
  | none => simp [fieldString]
  | some bs => simpa [fieldString] using cString_eq_self_iff bs

/-! ### The table -/

@[simp] theorem ResultSet.length_strings (rs : ResultSet) : rs.strings.length = rs.rows.length :=
  List.length_map _

theorem ResultSet.cols_strings (rs : ResultSet) :
    Table.cols rs.strings = if rs.rows = [] then 0 else rs.fields.toNat := by
  obtain ⟨fields, rows, hwidth⟩ := rs
  cases rows with
  | nil => rfl
  | cons row rows =>
    rw [if_neg (List.cons_ne_nil row rows)]
    exact (List.length_map _).trans (hwidth row List.mem_cons_self)

/-- A field that is there, by its place. -/
theorem ResultSet.field_eq {row col : UInt32} (h : rs.InRange row col) :
    ∃ r, rs.rows[row.toNat - 1]? = some r ∧ r[col.toNat - 1]? = some (rs.field row col) := by
  obtain ⟨⟨hrow, hrow'⟩, hcol, hcol'⟩ := h
  have hlt : row.toNat - 1 < rs.rows.length := by omega
  have hwidth := rs.width _ (List.getElem_mem hlt)
  have hlt' : col.toNat - 1 < rs.rows[row.toNat - 1].length := by omega
  refine ⟨_, List.getElem?_eq_getElem hlt, ?_⟩
  rw [ResultSet.field, List.getD_eq_getElem _ _ hlt, List.getD_eq_getElem _ _ hlt',
    List.getElem?_eq_getElem hlt']

/-- A field of a result of less than `2 ^ 32` rows has a place. -/
theorem ResultSet.exists_field (hrows : rs.rows.length < 2 ^ 32) {r : List (Option (List UInt8))}
    (hr : r ∈ rs.rows) {f : Option (List UInt8)} (hf : f ∈ r) :
    ∃ row col, rs.InRange row col ∧ rs.field row col = f := by
  have hwidth := rs.width r hr
  have hfields : rs.fields.toNat < 2 ^ 32 := rs.fields.toNat_lt
  obtain ⟨i, hi, rfl⟩ := List.getElem_of_mem hr
  obtain ⟨j, hj, rfl⟩ := List.getElem_of_mem hf
  have hrow : (UInt32.ofNat (i + 1)).toNat = i + 1 := toNat_ofNat_of_lt (by omega)
  have hcol : (UInt32.ofNat (j + 1)).toNat = j + 1 := toNat_ofNat_of_lt (by omega)
  refine ⟨.ofNat (i + 1), .ofNat (j + 1), ⟨by omega, by omega⟩, ?_⟩
  rw [ResultSet.field, hrow, hcol, Nat.add_sub_cancel, Nat.add_sub_cancel,
    List.getD_eq_getElem _ _ hi, List.getD_eq_getElem _ _ hj]

/-- What `GetString` reads for a field of a result whose rows and fields can be counted. -/
theorem getString_strings (hrows : rs.rows.length < 2 ^ 31) (hcount : rs.Countable)
    {row col : UInt32} (h : rs.InRange row col) (out : List UInt8) :
    Table.getString rs.strings row col out = some (fieldString (rs.field row col)) := by
  obtain ⟨r, hr, hf⟩ := rs.field_eq h
  obtain ⟨hrow, hcol⟩ := h
  have hne : rs.rows ≠ [] := by
    intro hnil
    rw [hnil, List.length_nil] at hrow
    omega
  have hfields : rs.fields.toNat < 2 ^ 31 := hcount.resolve_left hne
  have hguard : Table.Guard rs.strings row col := by
    rw [Table.guard_iff, rs.length_strings, rs.cols_strings, if_neg hne]
    omega
  rw [Table.getString, Table.access, if_pos hguard, Table.cell, toNat_sub_one hrow.1,
    toNat_sub_one hcol.1, ResultSet.strings, List.getElem?_map, hr, Option.map_some,
    Option.bind_some, List.getElem?_map, hf]
  rfl

theorem toInt_ofNat_eq_iff (n : ℕ) : (Int32.ofNat n).toInt = n ↔ n < 2 ^ 31 := by
  rw [Int32.toInt_ofNat', Int32.size, Int.bmod_def]
  split_ifs <;> omega

/-- When the accessors find the result in the table of its strings. -/
theorem readsAs_strings_iff (hcount : rs.Countable) :
    ReadsAs rs.strings rs ↔ rs.rows.length < 2 ^ 31 ∧ rs.ZeroFree := by
  constructor
  · intro h
    have hrows : rs.rows.length < 2 ^ 31 := by
      have hr := h.rows
      rwa [Table.getRows, rs.length_strings, toInt_ofNat_eq_iff] at hr
    refine ⟨hrows, fun r hr f hf => ?_⟩
    obtain ⟨row, col, hin, rfl⟩ := rs.exists_field (by omega) hr hf
    have hread := h.strings row col hin []
    rw [getString_strings hrows hcount hin, Option.some.injEq] at hread
    exact (fieldString_eq_iff _).mp hread
  · rintro ⟨hrows, hzero⟩
    constructor
    · rw [Table.getRows, rs.length_strings, toInt_ofNat_eq_iff]
      exact hrows
    · rw [Table.getCols, rs.cols_strings]
      split_ifs with hnil
      · rfl
      · rw [toInt_ofNat_eq_iff]
        exact hcount.resolve_left hnil
    · intro row col hin out
      obtain ⟨r, hr, hf⟩ := rs.field_eq hin
      rw [getString_strings hrows hcount hin, Option.some.injEq, fieldString_eq_iff]
      exact hzero r (List.mem_of_getElem? hr) _ (List.mem_of_getElem? hf)

/-- **Which queries read back exactly**: those whose result has rows that an `int` can count,
and no zero byte in a field. A result of which the loop cannot count the fields does not come
back. -/
theorem readBack_iff (t : Table) (q : QueryCall) :
    ReadBack t q ↔
      ∀ rs, q.stored = some rs → rs.Countable → rs.rows.length < 2 ^ 31 ∧ rs.ZeroFree := by
  constructor
  · intro h rs hs hcount
    refine (readsAs_strings_iff hcount).mp (h.read rs rs.strings hs ?_)
    rw [carryOutQuery_eq, hs]
    simp [hcount, Table.clear]
  · intro h
    constructor
    · intro rs t' hs hret
      rw [carryOutQuery_eq, hs] at hret
      simp only at hret
      split_ifs at hret with hcount
      cases hret
      exact (readsAs_strings_iff hcount).mpr (h rs hs hcount)
    · intro u u' hret
      rw [carryOutQuery_eq] at hret
      cases hs : q.stored with
      | none =>
        simp only [hs, Option.some.injEq, Prod.mk.injEq] at hret
        exact hret.2.symm
      | some rs =>
        simp only [hs] at hret
        split_ifs at hret
        cases hret

/-- A result whose one field has a zero byte in the middle. -/
def zeroInField : ResultSet := ⟨1, [[some [1, 0, 2]]], by decide⟩

/-- `GetString` has only the first of its three bytes. -/
theorem not_readBack_zeroByte :
    Table.getString zeroInField.strings 1 1 [] = some [1] ∧
      ¬ ReadBack [] ⟨true, true, true, some zeroInField⟩ := by
  refine ⟨rfl, fun h => ?_⟩
  have hreads := h.read zeroInField zeroInField.strings rfl rfl
  have hall := hreads.strings 1 1 (by unfold ResultSet.InRange; decide) []
  cases hall

end Syinx.Mysql
